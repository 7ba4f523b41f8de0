/-
  Coseva — a paused prescan goes on where a new one would come to.

  * `Within`: a point of the scan stands in the window, in front of its bound;
  * `scanStep_grown`: a step survives the growth of the window, and a pause
    is a point the grown scan passes;
  * `scanFrom_shift`: a scan does not depend on what is in front of the record;
  * `ScanWindow`: a window that grows and loses its front between the scans;
  * `resume_eq_rescan`: every scan from the checkpoint is a scan from the record's start.
-/
import Coseva.Prescan

namespace Coseva

namespace WindowScanConfig

open Engine (earliest earliest_findIdx?)

variable (config : WindowScanConfig)

/-- The bytes a search stops at. -/
def stops (inQuotes : Bool) (b : UInt8) : Bool :=
  if inQuotes then b == config.quote || (!config.doubled && b == config.quotedEscape)
  else
    (b == config.delimiter || (config.quoting && b == config.quote) || b == config.terminator)
      || (config.crlf && b == 13) || config.escape.unquotedByte == some b

theorem findClosing_eq (remaining : Bytes) :
    config.findClosing remaining = remaining.findIdx? (config.stops true) := by
  unfold findClosing find1 find2
  rcases h : config.doubled <;>
    simp only [Bool.false_eq_true, if_true, if_false] <;>
    congr 1 <;> funext b <;> simp [stops, h]

theorem findStop_eq (remaining : Bytes) :
    config.findStop remaining = remaining.findIdx? (config.stops false) := by
  have hp : ∀ p q : UInt8 → Bool, (∀ b, p b = q b) →
      remaining.findIdx? p = remaining.findIdx? q := fun p q h => by rw [funext h]
  unfold findStop find1 find2 find3
  rcases hq : config.quoting <;> rcases hc : config.crlf <;>
    rcases he : config.escape.unquotedByte with _ | escape <;>
    simp only [Bool.false_eq_true, if_true, if_false, earliest_findIdx?] <;>
    refine hp _ _ fun b => ?_ <;>
    simp only [stops, hq, hc, he, Bool.false_eq_true, if_false, Bool.false_and, Bool.true_and,
      Bool.or_false, Option.some_beq_some, Option.none_beq_some] <;>
    grind

section step

variable (input : Bytes) (recordStart : ℕ)

/-- The stop at `pos`, in quotes or outside them. -/
def stepAt (inQuotes : Bool) (fieldStart pos : ℕ) : ScanStep :=
  if inQuotes then config.stepQuoted input recordStart fieldStart pos
  else config.stepUnquoted input recordStart fieldStart pos

theorem scanStep_eq (p : ScanPoint) : config.scanStep input recordStart p =
    match (slice input p.cursor (config.scanEnd input recordStart p.fieldStart)).findIdx?
      (config.stops p.inQuotes) with
    | none => config.pauseScan input recordStart
        ⟨config.scanEnd input recordStart p.fieldStart, p.fieldStart, p.inQuotes⟩
    | some relative => config.stepAt input recordStart p.inQuotes p.fieldStart
        (p.cursor + relative) := by
  unfold scanStep stepAt
  rcases hfind : (slice input p.cursor (config.scanEnd input recordStart p.fieldStart)).findIdx?
    (config.stops p.inQuotes) <;> rcases hq : p.inQuotes <;> rw [hq] at hfind <;>
    simp only [Bool.false_eq_true, if_true, if_false, findClosing_eq, findStop_eq, hfind]

/-- A point stands in the record and in front of the scan's end. -/
structure Within (p : ScanPoint) : Prop where
  record : recordStart ≤ p.fieldStart
  field : p.fieldStart ≤ p.cursor
  bound : p.cursor ≤ config.scanEnd input recordStart p.fieldStart

variable {config input recordStart}

variable (config input recordStart) in
theorem scanEnd_le (fieldStart : ℕ) :
    config.scanEnd input recordStart fieldStart ≤ input.length := Nat.min_le_right _ _

/-- The bound reaches behind a field that starts in front of an earlier bound. -/
theorem lt_scanEnd {fieldStart next : ℕ}
    (h : next < config.scanEnd input recordStart fieldStart) :
    next < config.scanEnd input recordStart next := by
  unfold scanEnd at *
  omega

theorem le_scanEnd {fieldStart next : ℕ}
    (h : next ≤ config.scanEnd input recordStart fieldStart) :
    next ≤ config.scanEnd input recordStart next := by
  unfold scanEnd at *
  omega

theorem pauseScan_eq_pause {p c : ScanPoint} (h : config.pauseScan input recordStart p = .pause c) :
    c = p ∧ config.scanEnd input recordStart p.fieldStart = input.length := by
  unfold pauseScan at h
  split_ifs at h with hlimited
  cases h
  exact ⟨rfl, Nat.le_antisymm (scanEnd_le _ _ _ _) (Nat.le_of_not_lt hlimited)⟩

theorem pauseScan_ne_next {p c : ScanPoint} :
    config.pauseScan input recordStart p ≠ .next c := by
  unfold pauseScan
  split_ifs <;> exact nofun

variable (config) in
theorem width_delimiterTail :
    config.delimiterTail.width = config.delimiterTail.asSlice.length + 1 :=
  Engine.Tail.width_eq config.delimiterTail_usable

/-! ### One step -/

variable (config input) in
theorem le_afterClosing (scanEnd pos : ℕ) : pos + 1 ≤ config.afterClosing input scanEnd pos := by
  unfold afterClosing skipTrailing
  split_ifs <;> omega

theorem afterClosing_lt {scanEnd pos : ℕ} (hpos : pos + 1 < scanEnd)
    (h : (config.permitsTrailingWs && decide (config.afterClosing input scanEnd pos ≥ scanEnd)) =
      false) : config.afterClosing input scanEnd pos < scanEnd := by
  rcases hws : config.permitsTrailingWs
  · simpa [afterClosing, hws] using hpos
  · simpa [hws] using h

section next

variable {p p' : ScanPoint} {pos : ℕ}

/-- A delimiter in front of the bound starts a field in front of its own. -/
theorem within_field (fieldStart : ℕ) {next : ℕ} (hrecord : recordStart ≤ next)
    (h : next ≤ config.scanEnd input recordStart fieldStart) (q : Bool) :
    config.Within input recordStart ⟨next, next, q⟩ :=
  ⟨hrecord, Nat.le_refl _, le_scanEnd h⟩

theorem stepClosed_next {fieldStart : ℕ} (hrecord : recordStart ≤ pos)
    (hlt : pos + 1 < config.scanEnd input recordStart fieldStart)
    (h : config.stepClosed input recordStart fieldStart pos = .next p') :
    config.Within input recordStart p' ∧ pos < p'.cursor := by
  have hle := le_afterClosing config input
    (config.scanEnd input recordStart fieldStart) pos
  unfold stepClosed at h
  simp only at h
  generalize hafter : config.afterClosing input (config.scanEnd input recordStart fieldStart) pos =
    after at h hle
  split_ifs at h with hedge hdelimiter hshort hconfirms
  · exact absurd h pauseScan_ne_next
  · cases h
    have hafter' := afterClosing_lt hlt (by rw [hafter]; simpa using hedge)
    rw [hafter] at hafter'
    have hwidth := width_delimiterTail config
    exact ⟨within_field fieldStart (by omega) (by omega) _, by simp only; omega⟩

variable (hp : config.Within input recordStart p) (hpos : p.cursor ≤ pos)

include hp hpos

theorem stepQuoted_next
    (h : config.stepQuoted input recordStart p.fieldStart pos = .next p') :
    config.Within input recordStart p' ∧ pos < p'.cursor := by
  have hrecord := hp.record
  have hfield := hp.field
  unfold stepQuoted at h
  simp only at h
  split_ifs at h with hescape hedge hinvalid hedge hdoubled
  · exact absurd h pauseScan_ne_next
  · cases h
    exact ⟨⟨hrecord, by simp only; omega, by simp only; omega⟩, by simp only; omega⟩
  · exact absurd h pauseScan_ne_next
  · cases h
    exact ⟨⟨hrecord, by simp only; omega, by simp only; omega⟩, by simp only; omega⟩
  · exact stepClosed_next (by omega) (by omega) h

variable (hlt : pos < config.scanEnd input recordStart p.fieldStart)

include hlt

theorem stepUnquoted_next
    (h : config.stepUnquoted input recordStart p.fieldStart pos = .next p') :
    config.Within input recordStart p' ∧ pos < p'.cursor := by
  have hrecord := hp.record
  have hfield := hp.field
  have hwidth := width_delimiterTail config
  unfold stepUnquoted stepQuote at h
  simp only at h
  split_ifs at h with hescape hedge hdelimiter hshort hconfirms hquote hopens hpermits hending hshort
    hconfirms
  all_goals first
    | exact absurd h pauseScan_ne_next
    | cases h
  · exact ⟨⟨hrecord, by simp only; omega, by simp only; omega⟩, by simp only; omega⟩
  · exact ⟨⟨hrecord, by simp only; omega, by simp only; omega⟩, by simp only; omega⟩
  · exact ⟨within_field p.fieldStart (by omega) (by omega) _, by simp only; omega⟩
  · have := lt_scanEnd hlt
    exact ⟨⟨by simp only; omega, by simp only; omega, by simp only; omega⟩, by simp only; omega⟩
  · exact ⟨⟨hrecord, by simp only; omega, by simp only; omega⟩, by simp only; omega⟩
  · exact ⟨⟨hrecord, by simp only; omega, by simp only; omega⟩, by simp only; omega⟩

/-- **A step that goes on** has read its stop, and stays in front of the bound. -/
theorem stepAt_next {q : Bool}
    (h : config.stepAt input recordStart q p.fieldStart pos = .next p') :
    config.Within input recordStart p' ∧ pos < p'.cursor := by
  unfold stepAt at h
  split_ifs at h
  · exact stepQuoted_next hp hpos h
  · exact stepUnquoted_next hp hpos hlt h

end next

/-- A pause at a stop is a pause in front of it. -/
theorem stepAt_pause {q : Bool} {fieldStart pos : ℕ} {c : ScanPoint}
    (h : config.stepAt input recordStart q fieldStart pos = .pause c) :
    c = ⟨pos, fieldStart, q⟩ ∧
      config.scanEnd input recordStart fieldStart = input.length := by
  unfold stepAt stepQuoted stepUnquoted stepClosed stepQuote at h
  simp only at h
  split_ifs at h with hq <;> first
    | (subst hq; exact pauseScan_eq_pause h)
    | (rw [Bool.not_eq_true] at hq; subst hq; exact pauseScan_eq_pause h)

end step

/-! ### A window that grows -/

section grown

variable {config : WindowScanConfig} {input input' : Bytes} {recordStart : ℕ}
  (hgrown : input <+: input')

include hgrown

variable (config recordStart) in
theorem scanEnd_grown (fieldStart : ℕ) :
    config.scanEnd input recordStart fieldStart ≤ config.scanEnd input' recordStart fieldStart := by
  have := hgrown.length_le
  unfold scanEnd
  omega

theorem byteAt_grown {i : ℕ} (hi : i < input.length) : byteAt input' i = byteAt input i := by
  obtain ⟨more, rfl⟩ := hgrown
  simp [byteAt, List.getD_eq_getElem?_getD, List.getElem?_append_left hi]

theorem slice_grown {start stop : ℕ} (hstop : stop ≤ input.length) :
    slice input' start stop = slice input start stop := by
  obtain ⟨more, rfl⟩ := hgrown
  rw [slice, slice, List.take_append_of_le_length hstop]

omit hgrown in
theorem slice_split {start mid stop : ℕ} (hstart : start ≤ mid) (hmid : mid ≤ stop)
    (hstop : stop ≤ input.length) :
    slice input start stop = slice input start mid ++ slice input mid stop := by
  unfold slice
  conv_lhs => rw [← List.take_append_drop mid (input.take stop)]
  rw [List.take_take, Nat.min_eq_left hmid, List.drop_append_of_le_length]
  simp only [List.length_take]
  omega

/-- A longer window begins with the shorter one. -/
theorem slice_grown_split {start stop stop' : ℕ} (hstart : start ≤ stop) (hstop : stop ≤ stop')
    (hlen : stop ≤ input.length) (hlen' : stop' ≤ input'.length) :
    slice input' start stop' = slice input start stop ++ slice input' stop stop' := by
  rw [slice_split hstart hstop hlen', slice_grown hgrown hlen]

theorem confirms_grown {t : Tail} {start stop stop' : ℕ} (hstart : start ≤ stop)
    (hstop : stop ≤ stop') (hlen : stop ≤ input.length) (hlen' : stop' ≤ input'.length)
    (hfits : t.asSlice.length ≤ stop - start) :
    t.confirms (slice input' start stop') = t.confirms (slice input start stop) := by
  have hlength : (slice input start stop).length = stop - start := by
    rw [slice, List.length_drop, List.length_take, Nat.min_eq_left hlen]
  rw [slice_grown_split hgrown hstart hstop hlen hlen', Tail.confirms, Tail.confirms,
    Bool.eq_iff_iff, List.isPrefixOf_iff_prefix, List.isPrefixOf_iff_prefix]
  constructor
  · intro h
    exact List.prefix_of_prefix_length_le h (List.prefix_append _ _) (by omega)
  · exact fun h => h.trans (List.prefix_append _ _)

theorem afterClosing_grown {scanEnd scanEnd' pos : ℕ} (hpos : pos + 1 ≤ scanEnd)
    (hend : scanEnd ≤ scanEnd') (hlen : scanEnd ≤ input.length) (hlen' : scanEnd' ≤ input'.length)
    (hlt : config.afterClosing input scanEnd pos < scanEnd) :
    config.afterClosing input' scanEnd' pos = config.afterClosing input scanEnd pos := by
  unfold afterClosing skipTrailing at *
  split_ifs at hlt ⊢ with hws
  · rw [slice_grown_split hgrown hpos hend hlen hlen', List.takeWhile_append, if_neg]
    intro hall
    have hlength : (slice input (pos + 1) scanEnd).length = scanEnd - (pos + 1) := by
      rw [slice, List.length_drop, List.length_take, Nat.min_eq_left hlen]
    omega
  · rfl

section stop

variable {fieldStart pos : ℕ} {p' : ScanPoint}

theorem stepClosed_grown (hlt : pos + 1 < config.scanEnd input recordStart fieldStart)
    (h : config.stepClosed input recordStart fieldStart pos = .next p') :
    config.stepClosed input' recordStart fieldStart pos = .next p' := by
  have hend := scanEnd_grown config recordStart hgrown fieldStart
  have hlen := scanEnd_le config input recordStart fieldStart
  have hlen' := scanEnd_le config input' recordStart fieldStart
  unfold stepClosed at h ⊢
  simp only at h ⊢
  generalize config.scanEnd input recordStart fieldStart = scanEnd at *
  generalize config.scanEnd input' recordStart fieldStart = scanEnd' at *
  rcases hedge : (config.permitsTrailingWs &&
      decide (config.afterClosing input scanEnd pos ≥ scanEnd)) with _ | _
  · have hafter := afterClosing_lt hlt hedge
    rw [hedge, if_neg Bool.false_ne_true] at h
    rw [afterClosing_grown hgrown (Nat.le_of_lt hlt) hend hlen hlen' hafter]
    generalize config.afterClosing input scanEnd pos = after at *
    rw [if_neg (by simp; omega), byteAt_grown hgrown (Nat.lt_of_lt_of_le hafter hlen)]
    split_ifs at h with hdelimiter hshort hconfirms
    · exact absurd h pauseScan_ne_next
    · rw [if_pos hdelimiter, if_neg (by omega), confirms_grown hgrown (by omega) hend hlen hlen'
        (by omega), if_neg hconfirms]
      exact h
  · rw [hedge, if_pos rfl] at h
    cases h

theorem stepQuoted_grown (hlt : pos < config.scanEnd input recordStart fieldStart)
    (h : config.stepQuoted input recordStart fieldStart pos = .next p') :
    config.stepQuoted input' recordStart fieldStart pos = .next p' := by
  have hend := scanEnd_grown config recordStart hgrown fieldStart
  have hlen := scanEnd_le config input recordStart fieldStart
  unfold stepQuoted at h ⊢
  simp only at h ⊢
  rw [byteAt_grown hgrown (Nat.lt_of_lt_of_le hlt hlen)]
  have hnext : pos + 1 < config.scanEnd input recordStart fieldStart →
      byteAt input' (pos + 1) = byteAt input (pos + 1) := fun hnext =>
    byteAt_grown hgrown (Nat.lt_of_lt_of_le hnext hlen)
  split_ifs at h with hescape hedge hinvalid hedge hdoubled
  · exact absurd h pauseScan_ne_next
  · rw [if_pos hescape, if_neg (by omega), hnext (by omega), if_neg hinvalid]
    exact h
  · exact absurd h pauseScan_ne_next
  · rw [if_neg hescape, if_neg (by omega), hnext (by omega), if_pos hdoubled]
    exact h
  · rw [if_neg hescape, if_neg (by omega), hnext (by omega), if_neg hdoubled]
    exact stepClosed_grown hgrown (by omega) h

theorem stepUnquoted_grown (hlt : pos < config.scanEnd input recordStart fieldStart)
    (h : config.stepUnquoted input recordStart fieldStart pos = .next p') :
    config.stepUnquoted input' recordStart fieldStart pos = .next p' := by
  have hend := scanEnd_grown config recordStart hgrown fieldStart
  have hlen := scanEnd_le config input recordStart fieldStart
  have hlen' := scanEnd_le config input' recordStart fieldStart
  unfold stepUnquoted stepQuote at h ⊢
  simp only at h ⊢
  rw [byteAt_grown hgrown (Nat.lt_of_lt_of_le hlt hlen),
    slice_grown hgrown (Nat.le_of_lt (Nat.lt_of_lt_of_le hlt hlen))]
  have hconfirms : ∀ t : Tail,
      ¬config.scanEnd input recordStart fieldStart - (pos + 1) < t.asSlice.length →
      t.confirms (slice input' (pos + 1) (config.scanEnd input' recordStart fieldStart)) =
        t.confirms (slice input (pos + 1) (config.scanEnd input recordStart fieldStart)) :=
    fun t ht => confirms_grown hgrown (by omega) hend hlen hlen' (by omega)
  by_cases hescape : config.escape.unquotedByte = some (byteAt input pos)
  · rw [if_pos hescape] at h ⊢
    split_ifs at h with hedge
    · exact absurd h pauseScan_ne_next
    · rw [if_neg (by omega)]
      exact h
  rw [if_neg hescape] at h ⊢
  by_cases hdelimiter : byteAt input pos = config.delimiter
  · rw [if_pos hdelimiter] at h ⊢
    split_ifs at h with hshort hno
    · exact absurd h pauseScan_ne_next
    all_goals rw [if_neg (by omega), hconfirms _ hshort]
    · rw [if_pos hno]
      exact h
    · rw [if_neg hno]
      exact h
  rw [if_neg hdelimiter] at h ⊢
  by_cases hquote : (config.quoting && byteAt input pos == config.quote) = true
  · rw [if_pos hquote] at h ⊢
    exact h
  rw [if_neg hquote] at h ⊢
  by_cases hending : byteAt input pos = config.terminator ∧ config.endingTail.isEmpty = false
  · rw [if_pos hending] at h ⊢
    split_ifs at h with hshort hno
    · exact absurd h pauseScan_ne_next
    rw [if_neg (by omega), hconfirms _ hshort, if_pos hno]
    exact h
  · rw [if_neg hending] at h
    cases h

/-- A stop that the scan has passed is passed in a longer window. -/
theorem stepAt_grown {q : Bool} (hlt : pos < config.scanEnd input recordStart fieldStart)
    (h : config.stepAt input recordStart q fieldStart pos = .next p') :
    config.stepAt input' recordStart q fieldStart pos = .next p' := by
  unfold stepAt at h ⊢
  split_ifs at h ⊢
  · exact stepQuoted_grown hgrown hlt h
  · exact stepUnquoted_grown hgrown hlt h

end stop

/-- A stop found in a window is found in a longer one. -/
theorem find_grown {stops : UInt8 → Bool} {start stop stop' relative : ℕ} (hstart : start ≤ stop)
    (hstop : stop ≤ stop') (hlen : stop ≤ input.length) (hlen' : stop' ≤ input'.length)
    (h : (slice input start stop).findIdx? stops = some relative) :
    (slice input' start stop').findIdx? stops = some relative := by
  rw [slice_grown_split hgrown hstart hstop hlen hlen', List.findIdx?_append, h, Option.some_or]

/-- **One step in a window that has grown**: what went on goes on, and what
    paused goes on as it does from the pause. -/
theorem scanStep_grown {p : ScanPoint} (hp : config.Within input recordStart p) :
    (∀ p', config.scanStep input recordStart p = .next p' →
      config.scanStep input' recordStart p = .next p') ∧
    ∀ c, config.scanStep input recordStart p = .pause c →
      config.scanStep input' recordStart p = config.scanStep input' recordStart c ∧
        config.Within input recordStart c := by
  have hend := scanEnd_grown config recordStart hgrown p.fieldStart
  have hlen := scanEnd_le config input recordStart p.fieldStart
  have hlen' := scanEnd_le config input' recordStart p.fieldStart
  have hbound := hp.bound
  have hfield := hp.field
  have hrecord := hp.record
  rcases hfind : (slice input p.cursor (config.scanEnd input recordStart p.fieldStart)).findIdx?
      (config.stops p.inQuotes) with _ | relative
  · -- nothing in the window: the search of the longer one goes on behind it
    simp only [scanStep_eq config input, hfind]
    refine ⟨fun p' h => absurd h pauseScan_ne_next, fun c h => ?_⟩
    obtain ⟨rfl, -⟩ := pauseScan_eq_pause h
    refine ⟨?_, hrecord, by simp only; omega, Nat.le_refl _⟩
    simp only [scanStep_eq]
    rw [slice_grown_split hgrown hbound hend hlen hlen', List.findIdx?_append, hfind,
      Option.none_or]
    have hlength : (slice input p.cursor
        (config.scanEnd input recordStart p.fieldStart)).length =
        config.scanEnd input recordStart p.fieldStart - p.cursor := by
      rw [slice, List.length_drop, List.length_take, Nat.min_eq_left hlen]
    rcases (slice input' (config.scanEnd input recordStart p.fieldStart)
      (config.scanEnd input' recordStart p.fieldStart)).findIdx? (config.stops p.inQuotes)
      with _ | relative
    · rfl
    · simp only [Option.map_some, hlength]
      congr 1
      omega
  · -- a stop: it is found again, from the point and from the pause at it
    have hlt : p.cursor + relative < config.scanEnd input recordStart p.fieldStart := by
      obtain ⟨hrelative, -⟩ := List.findIdx?_eq_some_iff_findIdx_eq.mp hfind
      rw [slice, List.length_drop, List.length_take] at hrelative
      omega
    have hfind' := find_grown hgrown hbound hend hlen hlen' hfind
    simp only [scanStep_eq config input, hfind]
    refine ⟨fun p' h => ?_, fun c h => ?_⟩
    · rw [scanStep_eq, hfind']
      exact stepAt_grown hgrown hlt h
    · obtain ⟨rfl, -⟩ := stepAt_pause h
      refine ⟨?_, hrecord, by simp only; omega, Nat.le_of_lt hlt⟩
      have hstop : (slice input' (p.cursor + relative)
          (config.scanEnd input' recordStart p.fieldStart)).findIdx? (config.stops p.inQuotes) =
          some 0 :=
        find_grown hgrown (Nat.le_of_lt hlt) hend hlen hlen' (by
          obtain ⟨u, b, v, hdrop, hu, hb, -, -⟩ := Window.of_window_some hfind
          have hcons : slice input (p.cursor + relative)
              (config.scanEnd input recordStart p.fieldStart) =
              b :: v.take (config.scanEnd input recordStart p.fieldStart -
                (p.cursor + relative) - 1) := by
            rw [slice, List.drop_take, Window.drop_of_drop hdrop (by omega),
              List.take_cons (by omega)]
          rw [hcons, List.findIdx?_cons, hb]
          rfl)
      rw [scanStep_eq, scanStep_eq, hfind', hstop]
      rfl

end grown

/-! ### The whole scan -/

section scan

variable {config : WindowScanConfig} {input : Bytes} {recordStart : ℕ}

theorem scanStep_next {p p' : ScanPoint} (hp : config.Within input recordStart p)
    (h : config.scanStep input recordStart p = .next p') :
    config.Within input recordStart p' ∧ p.cursor < p'.cursor := by
  rw [scanStep_eq] at h
  split at h
  · exact absurd h pauseScan_ne_next
  · rename_i relative hfind
    have hlt : p.cursor + relative < config.scanEnd input recordStart p.fieldStart := by
      obtain ⟨hrelative, -⟩ := List.findIdx?_eq_some_iff_findIdx_eq.mp hfind
      rw [slice, List.length_drop, List.length_take] at hrelative
      omega
    obtain ⟨hp', hlt'⟩ := stepAt_next hp (Nat.le_add_right _ _) hlt h
    exact ⟨hp', by omega⟩

/-- Fuel for every byte left is fuel enough. -/
theorem scanLoop_fuel {fuel fuel' : ℕ} {p : ScanPoint} (hp : config.Within input recordStart p)
    (h : input.length < p.cursor + fuel) (h' : input.length < p.cursor + fuel') :
    config.scanLoop input recordStart fuel p = config.scanLoop input recordStart fuel' p := by
  induction fuel generalizing fuel' p with
  | zero =>
    have := hp.bound.trans (scanEnd_le _ _ _ _)
    omega
  | succ fuel ih =>
    obtain _ | fuel' := fuel'
    · have := hp.bound.trans (scanEnd_le _ _ _ _)
      omega
    rw [scanLoop, scanLoop]
    rcases hstep : config.scanStep input recordStart p with p' | c | _
    · obtain ⟨hp', hlt⟩ := scanStep_next hp hstep
      exact ih hp' (by omega) (by omega)
    · rfl
    · rfl

variable (config input recordStart) in
/-- The scan from a point. -/
def scanFrom (p : ScanPoint) : Option ScanPoint :=
  config.scanLoop input recordStart (input.length + 1) p

/-- **The scan is its steps.** -/
theorem scanFrom_eq {p : ScanPoint} (hp : config.Within input recordStart p) :
    config.scanFrom input recordStart p =
      match config.scanStep input recordStart p with
      | .next p' => config.scanFrom input recordStart p'
      | .pause c => some c
      | .defer => none := by
  rw [scanFrom, scanLoop]
  rcases hstep : config.scanStep input recordStart p with p' | c | _
  · obtain ⟨hp', hlt⟩ := scanStep_next hp hstep
    exact scanLoop_fuel hp' (by omega) (by omega)
  · rfl
  · rfl

end scan

theorem Within.grown {config : WindowScanConfig} {input input' : Bytes} {recordStart : ℕ}
    {p : ScanPoint} (hp : config.Within input recordStart p) (hgrown : input <+: input') :
    config.Within input' recordStart p :=
  ⟨hp.record, hp.field, hp.bound.trans (scanEnd_grown _ _ hgrown _)⟩

/-- **A paused scan** goes on, in a longer window, where one from the earlier
    point comes to. -/
theorem scanFrom_grown {config : WindowScanConfig} {input input' : Bytes} {recordStart : ℕ}
    (hgrown : input <+: input') {p c : ScanPoint} (hp : config.Within input recordStart p)
    (h : config.scanFrom input recordStart p = some c) :
    config.scanFrom input' recordStart p = config.scanFrom input' recordStart c ∧
      config.Within input recordStart c := by
  -- on the bytes left in the shorter window
  generalize hleft : input.length - p.cursor = left
  induction left using Nat.strong_induction_on generalizing p with
  | _ left ih =>
    obtain ⟨hnext, hpause⟩ := scanStep_grown hgrown hp
    have hp' := hp.grown hgrown
    rw [scanFrom_eq hp] at h
    rcases hstep : config.scanStep input recordStart p with q | q | _ <;> rw [hstep] at h
    · obtain ⟨hq, hlt⟩ := scanStep_next hp hstep
      have hbound := hq.bound.trans (scanEnd_le _ _ _ _)
      rw [scanFrom_eq hp', hnext q hstep]
      exact ih (input.length - q.cursor) (by omega) hq h rfl
    · cases h
      obtain ⟨hsame, hc⟩ := hpause c hstep
      rw [scanFrom_eq hp', scanFrom_eq (hc.grown hgrown), hsame]
      exact ⟨rfl, hc⟩
    · cases h

/-! ### A window that loses its front -/

section shift

variable {config : WindowScanConfig} {front input : Bytes} {recordStart : ℕ}

/-- A point, with `n` more bytes in front of it. -/
def shift (n : ℕ) (p : ScanPoint) : ScanPoint := ⟨p.cursor + n, p.fieldStart + n, p.inQuotes⟩

def shiftStep (n : ℕ) : ScanStep → ScanStep
  | .next p => .next (shift n p)
  | .pause p => .pause (shift n p)
  | .defer => .defer

theorem shift_injective (n : ℕ) {p q : ScanPoint} (h : shift n p = shift n q) : p = q := by
  obtain ⟨pc, pf, pq⟩ := p
  obtain ⟨qc, qf, qq⟩ := q
  simp only [shift, ScanPoint.mk.injEq] at h ⊢
  exact ⟨by omega, by omega, h.2.2⟩

theorem scanEnd_shift (fieldStart : ℕ) :
    config.scanEnd (front ++ input) (recordStart + front.length) (fieldStart + front.length) =
      config.scanEnd input recordStart fieldStart + front.length := by
  unfold scanEnd
  rw [List.length_append]
  omega

theorem slice_shift (start stop : ℕ) :
    slice (front ++ input) (start + front.length) (stop + front.length) = slice input start stop := by
  rw [slice, slice, Nat.add_comm stop, List.take_length_add_append, Nat.add_comm start,
    ← List.drop_drop, List.drop_left]

theorem byteAt_shift (i : ℕ) : byteAt (front ++ input) (i + front.length) = byteAt input i := by
  rw [byteAt, byteAt, List.getD_eq_getElem?_getD, List.getD_eq_getElem?_getD, Nat.add_comm,
    List.getElem?_append_right (Nat.le_add_right _ _), Nat.add_sub_cancel_left]

theorem pauseScan_shift (p : ScanPoint) :
    config.pauseScan (front ++ input) (recordStart + front.length) (shift front.length p) =
      shiftStep front.length (config.pauseScan input recordStart p) := by
  unfold pauseScan shift
  rw [scanEnd_shift, List.length_append]
  split_ifs <;> first | rfl | omega

theorem afterClosing_shift (scanEnd pos : ℕ) :
    config.afterClosing (front ++ input) (scanEnd + front.length) (pos + front.length) =
      config.afterClosing input scanEnd pos + front.length := by
  unfold afterClosing skipTrailing
  rw [show pos + front.length + 1 = pos + 1 + front.length by omega, slice_shift]
  split_ifs <;> omega

theorem stepClosed_shift (fieldStart pos : ℕ) :
    config.stepClosed (front ++ input) (recordStart + front.length) (fieldStart + front.length)
        (pos + front.length) =
      shiftStep front.length (config.stepClosed input recordStart fieldStart pos) := by
  unfold stepClosed
  simp only [scanEnd_shift, afterClosing_shift, byteAt_shift]
  generalize config.scanEnd input recordStart fieldStart = scanEnd
  generalize config.afterClosing input scanEnd pos = after
  rw [show after + front.length + 1 = after + 1 + front.length by omega, slice_shift,
    Nat.add_sub_add_right, show after + front.length + config.delimiterTail.width =
      after + config.delimiterTail.width + front.length by omega]
  simp only [ge_iff_le, Nat.add_le_add_iff_right]
  split_ifs
  · rfl
  · exact pauseScan_shift ⟨pos, fieldStart, true⟩
  all_goals rfl

theorem stepQuoted_shift (fieldStart pos : ℕ) :
    config.stepQuoted (front ++ input) (recordStart + front.length) (fieldStart + front.length)
        (pos + front.length) =
      shiftStep front.length (config.stepQuoted input recordStart fieldStart pos) := by
  unfold stepQuoted
  simp only [scanEnd_shift, byteAt_shift]
  rw [show pos + front.length + 1 = pos + 1 + front.length by omega,
    show pos + front.length + 2 = pos + 2 + front.length by omega, byteAt_shift]
  simp only [ge_iff_le, Nat.add_le_add_iff_right]
  split_ifs
  · exact pauseScan_shift ⟨pos, fieldStart, true⟩
  · rfl
  · rfl
  · exact pauseScan_shift ⟨pos, fieldStart, true⟩
  · rfl
  · exact stepClosed_shift fieldStart pos

theorem stepUnquoted_shift (fieldStart pos : ℕ) :
    config.stepUnquoted (front ++ input) (recordStart + front.length) (fieldStart + front.length)
        (pos + front.length) =
      shiftStep front.length (config.stepUnquoted input recordStart fieldStart pos) := by
  have hstart : (fieldStart + front.length != recordStart + front.length) =
      (fieldStart != recordStart) := by
    rw [Bool.eq_iff_iff, bne_iff_ne, bne_iff_ne]
    omega
  unfold stepUnquoted stepQuote
  simp only [scanEnd_shift, byteAt_shift, slice_shift]
  rw [show pos + front.length + 1 = pos + 1 + front.length by omega,
    show pos + front.length + 2 = pos + 2 + front.length by omega,
    show pos + front.length + config.delimiterTail.width =
      pos + config.delimiterTail.width + front.length by omega]
  simp only [ge_iff_le, Nat.add_le_add_iff_right, Nat.add_right_cancel_iff, Nat.add_sub_add_right,
    slice_shift, hstart]
  split_ifs <;> first | rfl | exact pauseScan_shift ⟨pos, fieldStart, false⟩

theorem scanStep_shift (p : ScanPoint) :
    config.scanStep (front ++ input) (recordStart + front.length) (shift front.length p) =
      shiftStep front.length (config.scanStep input recordStart p) := by
  rw [scanStep_eq, scanStep_eq]
  simp only [shift, scanEnd_shift, slice_shift]
  split
  · exact pauseScan_shift ⟨_, p.fieldStart, p.inQuotes⟩
  · rename_i relative _
    rw [show p.cursor + front.length + relative = p.cursor + relative + front.length by omega,
      stepAt, stepAt]
    split_ifs
    · exact stepQuoted_shift p.fieldStart _
    · exact stepUnquoted_shift p.fieldStart _

/-- **A scan does not see what is in front of its record.** -/
theorem scanLoop_shift (fuel : ℕ) (p : ScanPoint) :
    config.scanLoop (front ++ input) (recordStart + front.length) fuel (shift front.length p) =
      (config.scanLoop input recordStart fuel p).map (shift front.length) := by
  induction fuel generalizing p with
  | zero => rfl
  | succ fuel ih =>
    rw [scanLoop, scanLoop, scanStep_shift]
    rcases config.scanStep input recordStart p with p' | c | _
    · exact ih p'
    · rfl
    · rfl

theorem Within.of_shift {p : ScanPoint}
    (h : config.Within (front ++ input) (recordStart + front.length) (shift front.length p)) :
    config.Within input recordStart p := by
  obtain ⟨hrecord, hfield, hbound⟩ := h
  simp only [shift, scanEnd_shift] at hrecord hfield hbound
  exact ⟨by omega, by omega, by omega⟩

theorem scanFrom_shift {p : ScanPoint}
    (hp : config.Within (front ++ input) (recordStart + front.length) (shift front.length p)) :
    config.scanFrom (front ++ input) (recordStart + front.length) (shift front.length p) =
      (config.scanFrom input recordStart p).map (shift front.length) := by
  rw [scanFrom, scanLoop_shift, scanFrom]
  congr 1
  exact scanLoop_fuel hp.of_shift (by rw [List.length_append]; omega) (by omega)

end shift

end WindowScanConfig

/-! ## The run -/

open WindowScanConfig

def ResumeState.point (resume : ResumeState) : ScanPoint :=
  ⟨resume.scannedTo, resume.fieldStart, resume.inQuotes⟩

/-- The checkpoint of the record at `recordStart` stands where every scan of it
    passes, in this window and in each one it grows to. -/
structure ResumeState.Settled (config : WindowScanConfig) (window : Bytes) (recordStart : ℕ)
    (resume : ResumeState) : Prop where
  record : resume.recordStart = some recordStart
  data : resume.ignored = false
  within : config.Within window recordStart resume.point
  passed : ∀ window', window <+: window' →
    config.scanFrom window' recordStart resume.point =
      config.scanFrom window' recordStart (ResumeState.fresh recordStart).point

namespace ResumeState

variable {config : WindowScanConfig} {window : Bytes} {recordStart : ℕ} {resume : ResumeState}

variable (config) in
theorem settled_fresh (h : recordStart ≤ window.length) :
    (fresh recordStart).Settled config window recordStart where
  record := rfl
  data := rfl
  within := ⟨Nat.le_refl _, Nat.le_refl _, by
    simp only [point, fresh, scanEnd]
    omega⟩
  passed _ _ := rfl

theorem Settled.le_length (h : resume.Settled config window recordStart) :
    recordStart ≤ window.length := by
  have := h.within
  exact this.record.trans (this.field.trans (this.bound.trans (scanEnd_le _ _ _ _)))

theorem Settled.append (h : resume.Settled config window recordStart) (chunk : Bytes) :
    resume.Settled config (window ++ chunk) recordStart where
  record := h.record
  data := h.data
  within := h.within.grown (List.prefix_append _ _)
  passed window' hwindow' := h.passed window' ((List.prefix_append _ _).trans hwindow')

/-- The front of the window is dropped, and the checkpoint moves with the record. -/
theorem Settled.shift {front : Bytes}
    (h : resume.Settled config (front ++ window) (recordStart + front.length)) :
    (resume.shiftResume front.length).Settled config window recordStart := by
  obtain ⟨record, scannedTo, fieldStart, inQuotes, ignored⟩ := resume
  have hlen := h.le_length
  obtain ⟨hrecord, hdata, hwithin, hpassed⟩ := h
  obtain rfl : record = some (recordStart + front.length) := hrecord
  obtain rfl : ignored = false := hdata
  have hfield : recordStart + front.length ≤ fieldStart := hwithin.record
  have hcursor : fieldStart ≤ scannedTo := hwithin.field
  obtain ⟨field, rfl⟩ := Nat.exists_eq_add_of_le' ((Nat.le_add_left _ _).trans hfield)
  obtain ⟨scanned, rfl⟩ := Nat.exists_eq_add_of_le' ((Nat.le_add_left _ _).trans
    (hfield.trans hcursor))
  have hshifted : shiftResume ⟨some (recordStart + front.length), scanned + front.length,
      field + front.length, inQuotes, false⟩ front.length =
      ⟨some recordStart, scanned, field, inQuotes, false⟩ := by
    simp only [shiftResume, Bool.false_and, Bool.false_eq_true, if_false]
    rw [if_pos (by simp)]
    simp
  rw [hshifted]
  refine ⟨rfl, rfl, Within.of_shift hwithin, fun window' hwindow' => ?_⟩
  -- the two scans are those of the window with its front
  have hgrown : front ++ window <+: front ++ window' :=
    (List.prefix_append_right_inj _).mpr hwindow'
  have hfresh := ((settled_fresh config hlen).within).grown hgrown
  have hsame := hpassed _ hgrown
  change config.scanFrom (front ++ window') (recordStart + front.length)
      (WindowScanConfig.shift front.length ⟨scanned, field, inQuotes⟩) =
    config.scanFrom (front ++ window') (recordStart + front.length)
      (WindowScanConfig.shift front.length (fresh recordStart).point) at hsame
  rw [scanFrom_shift (hwithin.grown hgrown), scanFrom_shift hfresh] at hsame
  exact Option.map_injective (fun _ _ => shift_injective _) hsame

theorem shiftResume_dropped (h : resume.Settled config window recordStart) {dropped : ℕ}
    (hdropped : recordStart < dropped) : resume.shiftResume dropped = .new := by
  rw [shiftResume, h.record]
  simp only [h.data, Bool.false_and, Bool.false_eq_true, if_false]
  rw [if_neg (by simp; omega)]

/-- **One scan** from a settled checkpoint is the scan from the record's start,
    and leaves a settled checkpoint. -/
theorem Settled.scan (h : resume.Settled config window recordStart) :
    ((config.windowLacksRecordRuntime window resume).1 =
        (config.windowLacksRecordRuntime window (.fresh recordStart)).1 ∧
      ((config.windowLacksRecordRuntime window resume).1 = true →
        (config.windowLacksRecordRuntime window resume).2 =
          (config.windowLacksRecordRuntime window (.fresh recordStart)).2)) ∧
      (config.windowLacksRecordRuntime window resume).2.Settled config window recordStart := by
  have hfresh : (fresh recordStart).Settled config window recordStart := settled_fresh config h.le_length
  have hsame := h.passed window (List.prefix_refl _)
  simp only [windowLacksRecordRuntime, h.record, fresh]
  simp only [scanFrom, point, fresh] at hsame
  rw [hsame]
  rcases hscan : config.scanLoop window recordStart (window.length + 1)
    ⟨recordStart, recordStart, false⟩ with _ | c
  · exact ⟨⟨rfl, nofun⟩, h⟩
  · refine ⟨⟨rfl, fun _ => rfl⟩, rfl, rfl, ?_, fun window' hwindow' => ?_⟩
    · exact (scanFrom_grown (List.prefix_refl _) hfresh.within hscan).2
    · exact (scanFrom_grown hwindow' hfresh.within hscan).1.symm

end ResumeState

namespace ScanWindow

variable {config : WindowScanConfig}

/-- Two windows with the same bytes and checkpoints that tell no scan apart. -/
structure Alike (config : WindowScanConfig) (w w' : ScanWindow) : Prop where
  window : w.window = w'.window
  resume : (w.resume = .new ∧ w'.resume = .new) ∨ ∃ recordStart,
    w.resume.Settled config w.window recordStart ∧ w'.resume.Settled config w.window recordStart

/-- **One event** keeps two windows alike, and their scans find the same. -/
theorem Alike.step {w w' : ScanWindow} (h : Alike config w w') (event : WindowEvent) :
    Alike config (w.step config id event).1 (w'.step config ResumeState.restart event).1 ∧
      (w.step config id event).2 = (w'.step config ResumeState.restart event).2 := by
  obtain ⟨window, resume⟩ := w
  obtain ⟨window', resume'⟩ := w'
  obtain ⟨hwindow, hresume⟩ := h
  obtain rfl : window = window' := hwindow
  cases event with
  | append chunk =>
    refine ⟨⟨rfl, ?_⟩, rfl⟩
    rcases hresume with hnew | ⟨recordStart, hs, hs'⟩
    · exact Or.inl hnew
    · exact Or.inr ⟨recordStart, hs.append chunk, hs'.append chunk⟩
  | shift dropped =>
    simp only [ScanWindow.step]
    by_cases hlen : dropped ≤ window.length
    · rw [if_pos hlen, if_pos hlen]
      refine ⟨⟨rfl, ?_⟩, rfl⟩
      rcases hresume with ⟨hnew, hnew'⟩ | ⟨recordStart, hs, hs'⟩
      · simp only at hnew hnew'
        subst hnew hnew'
        exact Or.inl ⟨rfl, rfl⟩
      · rcases Nat.lt_or_ge recordStart dropped with hlt | hge
        · exact Or.inl ⟨ResumeState.shiftResume_dropped hs hlt,
            ResumeState.shiftResume_dropped hs' hlt⟩
        · obtain ⟨front, rest, rfl, rfl⟩ : ∃ front rest, window = front ++ rest ∧
              dropped = front.length :=
            ⟨_, _, (List.take_append_drop dropped window).symm, by simp [hlen]⟩
          obtain ⟨start, rfl⟩ := Nat.exists_eq_add_of_le' hge
          simp only [List.drop_left]
          exact Or.inr ⟨start, hs.shift, hs'.shift⟩
    · rw [if_neg hlen, if_neg hlen]
      exact ⟨⟨rfl, hresume⟩, rfl⟩
  | seed start =>
    simp only [ScanWindow.step]
    by_cases hlt : start < window.length
    · rw [if_pos hlt, if_pos hlt]
      refine ⟨⟨rfl, ?_⟩, rfl⟩
      have hfresh : (ResumeState.fresh start).Settled config window start :=
        ResumeState.settled_fresh config (Nat.le_of_lt hlt)
      rcases hresume with ⟨hnew, hnew'⟩ | ⟨recordStart, hs, hs'⟩
      · simp only at hnew hnew'
        subst hnew hnew'
        exact Or.inr ⟨start, hfresh, hfresh⟩
      · simp only [ResumeState.seedResume] at hs hs' ⊢
        rw [hs.record, hs'.record]
        rcases eq_or_ne recordStart start with rfl | hne
        · rw [if_pos rfl, if_pos rfl]
          exact Or.inr ⟨recordStart, hs, hs'⟩
        · rw [if_neg (by simpa using hne), if_neg (by simpa using hne)]
          exact Or.inr ⟨start, hfresh, hfresh⟩
    · rw [if_neg hlt, if_neg hlt]
      exact ⟨⟨rfl, hresume⟩, rfl⟩
  | scan =>
    rcases hresume with ⟨hnew, hnew'⟩ | ⟨recordStart, hs, hs'⟩
    · simp only at hnew hnew'
      subst hnew hnew'
      exact ⟨⟨rfl, Or.inl ⟨rfl, rfl⟩⟩, rfl⟩
    · simp only at hs hs'
      have hrestart : resume'.restart = .fresh recordStart := by
        rw [ResumeState.restart, hs'.record]
      obtain ⟨⟨hverdict, hcheckpoint⟩, hnext⟩ := hs.scan
      have hfresh := (ResumeState.settled_fresh config hs'.le_length).scan.2
      simp only [ScanWindow.step, id, hrestart, hs.record, hs'.record, Option.isNone_some,
        Bool.false_eq_true, if_false]
      refine ⟨⟨rfl, Or.inr ⟨recordStart, hnext, hfresh⟩⟩, ?_⟩
      rw [← hverdict]
      split_ifs with hlacks
      · rw [hcheckpoint hlacks]
      · rfl

/-- **A run**: windows alike find the same in all their scans. -/
theorem Alike.scans {w w' : ScanWindow} (h : Alike config w w') (events : List WindowEvent) :
    w.scans config id events = w'.scans config ResumeState.restart events := by
  induction events generalizing w w' with
  | nil => rfl
  | cons event events ih =>
    obtain ⟨hnext, hsame⟩ := h.step event
    rw [ScanWindow.scans, ScanWindow.scans, hsame, ih hnext]

/-- **Resuming is rescanning.** However a window grows, loses its front and is
    scanned, the scans from the saved checkpoint find what scans from the
    record's start find: the same verdicts, and the same checkpoints. -/
theorem resume_eq_rescan (config : WindowScanConfig) (window : Bytes) (events : List WindowEvent) :
    scans config id ⟨window, .new⟩ events = scans config ResumeState.restart ⟨window, .new⟩ events :=
  Alike.scans ⟨rfl, Or.inl ⟨rfl, rfl⟩⟩ events

end ScanWindow

end Coseva
