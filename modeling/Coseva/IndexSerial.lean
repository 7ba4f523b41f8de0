/-
  Coseva — the index that threads build is the one that a single parser builds.

  * `Stands`: a parser of the document, or of its part up to the end of a chunk,
    stands at a record;
  * `entries`: the positions of some records, wherever they are read;
  * `parseIndexChunk_entries`: a chunk has the positions of its records;
  * `Separable`: what the threads rely on;
  * `buildsParallel_serial`: whatever their schedule, the threads build the index
    of one parser.
-/
import Coseva.CutRecord
import Coseva.IndexPool

namespace Coseva

open Split Engine Run

/-- Lines are counted alike from any byte on. -/
theorem physicalLine_rebase {doc : Bytes} {base origin pos byte : ℕ} (horigin : origin ≤ pos)
    (hbyte : pos ≤ byte) (hdoc : byte ≤ doc.length) :
    physicalLine doc (physicalLine doc base origin pos) pos byte =
      physicalLine doc base origin byte := by
  unfold physicalLine
  simp only [Nat.min_eq_left hdoc, Nat.min_eq_left (Nat.le_trans hbyte hdoc), Nat.min_eq_left hbyte,
    Nat.min_eq_left horigin, Nat.min_eq_left (Nat.le_trans horigin hbyte)]
  rw [slice_append doc horigin hbyte, List.count_append, Nat.add_assoc]

namespace CsvIndex

open Unordered (place)

variable (cfg : ParserSettings) (input : Bytes) (start : Boundary)

/-- What a build relies on. -/
structure Indexable : Prop where
  splits : Splits cfg none
  headers : cfg.headers ≠ .firstRecord
  fieldCount : cfg.fieldCount ≠ .matchFirst
  skips : cfg.skipsRecords = false
  start_le : start.byte ≤ input.length
  line : 1 ≤ start.line
  short : input.length ≤ Span.maxOffset

/-- The line of the `m`-th record. -/
def lineAt (m : ℕ) : ℕ := physicalLine input start.line start.byte (place cfg input start m)

/-- A parser of `doc` stands at the `m`-th record of the document. -/
structure Stands (doc : Bytes) (m : ℕ) (e : Engine) : Prop extends Between e where
  location : e.location = place cfg input start m
  recordIndex : e.recordIndex = start.record + m
  lines : ∀ byte, e.location ≤ byte → byte ≤ doc.length →
    physicalLine doc e.lineBase e.lineOrigin byte = physicalLine input start.line start.byte byte
  origin : e.lineOrigin ≤ e.location
  ownedParser : e.ownedParser = (fromConfig cfg doc).ownedParser

/-- `e'` has read the `m`-th record, at which `e` stands. -/
structure Passes (m : ℕ) (e e' : Engine) : Prop extends Between e' where
  location : e'.location = place cfg input start (m + 1)
  recordIndex : e'.recordIndex = start.record + (m + 1)
  lineBase : e'.lineBase = e.lineBase
  lineOrigin : e'.lineOrigin = e.lineOrigin
  ownedParser : e'.ownedParser = e.ownedParser

/-- A read of the `m`-th record: a record that begins there, or the error. -/
def Reads (m : ℕ) (e : Engine) (r : EStateM.Result Fault Engine (Option Record)) :
    Except Fault Record → Prop
  | .ok _ => ∃ record e', r = .ok (some record) e' ∧ record.start = place cfg input start m ∧
    Passes cfg input start m e e'
  | .error fault => ∃ e', r = .error fault e'

section indexable

variable {cfg input start} (h : Indexable cfg input start) {doc : Bytes} {m : ℕ} {e e' : Engine}

include h

theorem place_le (m : ℕ) : place cfg input start m ≤ input.length := recordStart_le h.start_le m

theorem place_mono {m n : ℕ} (hmn : m ≤ n) : place cfg input start m ≤ place cfg input start n :=
  recordStart_mono h.start_le hmn

theorem place_lt {m n : ℕ} (hmn : m < n) (hm : place cfg input start m < input.length) :
    place cfg input start m < place cfg input start n :=
  recordStart_lt h.start_le hmn hm

/-- Within the document, records are not empty. -/
theorem place_add {m : ℕ} : ∀ n, (∀ i < n, place cfg input start (m + i) < input.length) →
    place cfg input start m + n ≤ place cfg input start (m + n)
  | 0, _ => Nat.le_refl _
  | n + 1, hlt => by
    have ih := place_add (m := m) n fun i hi => hlt i (Nat.lt_succ_of_lt hi)
    have := place_lt h (Nat.lt_succ_self (m + n)) (hlt n (Nat.lt_succ_self n))
    rw [← Nat.add_assoc m n 1]
    simp only [Nat.succ_eq_add_one] at this
    omega

/-! ## One record -/

theorem read_within {kind : ErrorKind} {location : Location}
    (hr : readAt cfg none input start m = .error (.error kind location)) :
    place cfg input start m ≤ location.byte ∧ location.byte ≤ place cfg input start (m + 1) := by
  have hcounted := counted_of_splits h.splits h.start_le m (by rw [hr]; exact nofun)
  unfold Counted at hcounted
  rw [hr] at hcounted
  exact hcounted

theorem read_ne_stuck (m : ℕ) : readAt cfg none input start m ≠ .error .stuck := by
  intro hr
  have hcounted := counted_of_splits h.splits h.start_le m (by rw [hr]; exact nofun)
  unfold Counted at hcounted
  rw [hr] at hcounted
  exact hcounted

/-- **A record is read alike** in the document and in a part of it that it lies
    in. -/
theorem nextRecord_reads (hdoc : doc = input.take doc.length)
    (hm : place cfg input start m < place cfg input start (m + 1))
    (hstop : place cfg input start (m + 1) ≤ doc.length) (hstands : Stands cfg input start doc m e) :
    Reads cfg input start m e (SliceParser.nextRecord cfg none doc e)
      (readAt cfg none input start m) := by
  have hle := place_le h m
  have hdocle : doc.length ≤ input.length := by
    have := congrArg List.length hdoc
    rw [List.length_take] at this
    omega
  have hadvance : advance cfg none doc e = .ok true e.positioned := by
    rw [advance_between h.skips hstands.toBetween, if_neg]
    rw [hstands.location]
    exact Nat.ne_of_lt (Nat.lt_of_lt_of_le hm hstop)
  have h₀ := seekTo_at (ready_fromConfig input h.headers) h.start_le h.line m
  have hlands : Lands (place cfg input start m) (place cfg input start (m + 1))
      (fun range _ => range.2.1 = place cfg input start (m + 1))
      (parsePositionedRecord cfg none input false
        ((fromConfig cfg input).seekTo (after cfg.dialect input start m)).positioned) :=
    parsePositionedRecord_lands h.splits false rfl hle
  unfold readAt
  generalize (fromConfig cfg input).seekTo (after cfg.dialect input start m) = e₀ at h₀ hlands ⊢
  have hlocation : e₀.positioned.location = e.positioned.location :=
    h₀.location.trans hstands.location.symm
  have hrecord : e₀.positioned.recordIndex = e.positioned.recordIndex :=
    h₀.recordIndex.trans hstands.recordIndex.symm
  have hr : Related (Behind cfg e₀.positioned e.positioned)
      (Likewise (physicalLine input e₀.lineBase e₀.lineOrigin)
        (physicalLine doc e.lineBase e.lineOrigin))
      (parsePositionedRecord cfg none input false e₀.positioned)
      (parsePositionedRecord cfg none doc false e.positioned) := by
    rcases Nat.lt_or_eq_of_le (place_le h (m + 1)) with hlt | heq
    · have hcut : Cut input doc (place cfg input start (m + 1)) := by
        refine ⟨?_, hlt, hstop⟩
        rw [hdoc, List.take_take, Nat.min_eq_left hstop]
      refine parsePositionedRecord_cut h.splits hcut hrecord h₀.ownedParser hstands.ownedParser false
        hlocation (fun hcount => absurd hcount h.fieldCount) ?_ h.short
        (Nat.le_trans hdocle h.short)
      show Open cfg.dialect input _ false e₀.location
      rw [h₀.location]
      exact Open.start cfg.dialect hle
    · have hwhole : doc = input := by
        rw [hdoc, List.take_of_length_le (by omega)]
      subst hwhole
      exact (parsePositionedRecord_replays ⟨hrecord, h₀.ownedParser.trans hstands.ownedParser.symm⟩
        false hlocation (fun hcount => absurd hcount h.fieldCount) (Or.inl h.short)).mono
        fun _ _ => Moved.behind
  unfold SliceParser.nextRecord
  rw [bind_ok hadvance]
  simp only [if_true]
  have hread := @record_positioned cfg none doc e
  rw [record_positioned]
  rcases hs : parsePositionedRecord cfg none input false e₀.positioned with ⟨range, s⟩ | ⟨fault, s⟩ <;>
    rcases ht : parsePositionedRecord cfg none doc false e.positioned with
      ⟨range', t⟩ | ⟨fault', t⟩ <;>
    rw [hs, ht] at hr <;> rw [hs] at hlands <;> rw [ht] at hread
  · obtain ⟨rfl, hbehind⟩ := hr
    obtain ⟨-, hfirst, hlast⟩ := parsePositionedRecord_range ht
    have hlocation' : t.location = place cfg input start (m + 1) := hlast.symm.trans hlands
    have hframe := hbehind.right
    have hfailed := congrArg Engine.failed hframe
    have hheaders := congrArg Engine.headersInitialized hframe
    have hresume := congrArg Engine.resume hframe
    have hcursor := congrArg Engine.cursorStart hframe
    have hindex := congrArg Engine.recordIndex hframe
    have hbase := congrArg Engine.lineBase hframe
    have horigin := congrArg Engine.lineOrigin hframe
    have howned := congrArg Engine.ownedParser hframe
    refine ⟨_, _, map_ok hread, hfirst.trans hstands.location, ?_⟩
    constructor
    · refine ⟨hfailed.trans hstands.failed, hheaders.trans hstands.headers,
        hresume.trans hstands.resume, ?_⟩
      rw [show t.cursorStart = some e.location from hcursor, hstands.location]
      simp only [hlocation']
      exact fun heq => absurd (Option.some.inj heq) (Nat.ne_of_lt hm)
    · exact hlocation'
    · rw [show t.recordIndex = e.recordIndex + 1 from hindex, hstands.recordIndex, Nat.add_assoc]
    · exact hbase
    · exact horigin
    · exact howned
  · exact hr.elim
  · exact hr.elim
  · refine ⟨t, ?_⟩
    cases hr with
    | panic => exact map_error hread
    | stuck => exact map_error hread
    | error kind byte record field =>
      obtain ⟨hlow, hhigh⟩ : place cfg input start m ≤ byte ∧
        byte ≤ place cfg input start (m + 1) := hlands
      rw [h₀.lines byte (h₀.location.symm ▸ hlow),
        ← hstands.lines byte (hstands.location.symm ▸ hlow) (Nat.le_trans hhigh hstop)]
      exact map_error hread

/-- Behind a record of which the line was looked up, the parser stands at the
    next. -/
theorem Passes.stands (hstands : Stands cfg input start doc m e)
    (hstop : place cfg input start (m + 1) ≤ doc.length) (hpasses : Passes cfg input start m e e') :
    physicalLine doc e'.lineBase e'.lineOrigin (place cfg input start m) = lineAt cfg input start m ∧
      Stands cfg input start doc (m + 1)
        (e'.advanceLineOrigin (place cfg input start m) (lineAt cfg input start m)) := by
  have hmono := place_mono h (Nat.le_succ m)
  have hline : physicalLine doc e'.lineBase e'.lineOrigin (place cfg input start m) =
      lineAt cfg input start m := by
    rw [hpasses.lineBase, hpasses.lineOrigin]
    exact hstands.lines _ (Nat.le_of_eq hstands.location) (Nat.le_trans hmono hstop)
  have horigin : e'.lineOrigin ≤ place cfg input start m := by
    rw [hpasses.lineOrigin, ← hstands.location]
    exact hstands.origin
  have hpositive : max (lineAt cfg input start m) 1 = lineAt cfg input start m := by
    have hline := h.line
    refine Nat.max_eq_left ?_
    unfold lineAt physicalLine
    simp only
    omega
  refine ⟨hline, ?_⟩
  unfold Engine.advanceLineOrigin
  rw [if_pos horigin, hpositive]
  refine ⟨⟨hpasses.failed, hpasses.headers, hpasses.resume, hpasses.settled⟩, hpasses.location,
    hpasses.recordIndex, fun byte hlow hhigh => ?_, ?_, ?_⟩
  · have hlow' : place cfg input start (m + 1) ≤ byte := hpasses.location ▸ hlow
    have hbyte : place cfg input start m ≤ byte := Nat.le_trans hmono hlow'
    show physicalLine doc (lineAt cfg input start m) (place cfg input start m) byte = _
    rw [← hline, physicalLine_rebase horigin hbyte hhigh, hpasses.lineBase, hpasses.lineOrigin]
    exact hstands.lines byte (hstands.location ▸ hbyte) hhigh
  · show place cfg input start m ≤ e'.location
    rw [hpasses.location]
    exact hmono
  · exact hpasses.ownedParser.trans hstands.ownedParser

/-! ## The positions of some records -/

omit h in
variable (cfg input start) in
/-- The positions of `n` records from the `m`-th on, or the first error. -/
def entries : (n m : ℕ) → Except Fault (List Position)
  | 0, _ => .ok []
  | n + 1, m =>
    match readAt cfg none input start m with
    | .error fault => .error fault
    | .ok _ => (⟨place cfg input start m, lineAt cfg input start m⟩ :: ·) <$> entries n (m + 1)

omit h in
theorem entries_add (k : ℕ) : ∀ n m, entries cfg input start (n + k) m =
    match entries cfg input start n m with
    | .error fault => .error fault
    | .ok positions => (positions ++ ·) <$> entries cfg input start k (m + n)
  | 0, m => by
    rw [Nat.zero_add]
    simp only [entries, Nat.add_zero]
    cases entries cfg input start k m <;> rfl
  | n + 1, m => by
    have ih := entries_add k n (m + 1)
    rw [Nat.add_right_comm n 1 k, entries, entries]
    rcases readAt cfg none input start m with fault | r
    · rfl
    · simp only [ih]
      rw [show m + 1 + n = m + (n + 1) by omega]
      rcases entries cfg input start n (m + 1) with fault | positions
      · rfl
      · rcases entries cfg input start k (m + (n + 1)) <;> rfl

omit h in
theorem entries_error {fault : Fault} : ∀ n m, entries cfg input start n m = .error fault →
    ∃ M, m ≤ M ∧ M < m + n ∧ readAt cfg none input start M = .error fault ∧
      ∀ i, m ≤ i → i < M → ∃ r, readAt cfg none input start i = .ok r
  | 0, m, hrun => by cases hrun
  | n + 1, m, hrun => by
    rw [entries] at hrun
    rcases hr : readAt cfg none input start m with fault' | r <;> rw [hr] at hrun
    · obtain rfl := Except.error.inj hrun
      exact ⟨m, Nat.le_refl m, by omega, hr, fun i h1 h2 => absurd h1 (Nat.not_le_of_lt h2)⟩
    · rcases hrest : entries cfg input start n (m + 1) with fault' | positions
      · simp only [hrest] at hrun
        obtain rfl := Except.error.inj hrun
        obtain ⟨M, hlow, hhigh, hM, hbefore⟩ := entries_error n (m + 1) hrest
        refine ⟨M, by omega, by omega, hM, fun i h1 h2 => ?_⟩
        rcases Nat.lt_or_eq_of_le h1 with hlt | rfl
        · exact hbefore i hlt h2
        · exact ⟨r, hr⟩
      · simp only [hrest] at hrun
        cases hrun

omit h in
theorem entries_ok {positions : List Position} : ∀ n m,
    entries cfg input start n m = .ok positions →
      ∀ i, m ≤ i → i < m + n → ∃ r, readAt cfg none input start i = .ok r
  | 0, m, _, i, h1, h2 => absurd h1 (by omega)
  | n + 1, m, hrun, i, h1, h2 => by
    rw [entries] at hrun
    rcases hr : readAt cfg none input start m with fault | r <;> rw [hr] at hrun
    · cases hrun
    rcases Nat.lt_or_eq_of_le h1 with hlt | rfl
    · rcases hrest : entries cfg input start n (m + 1) with fault | rest
      · simp only [hrest] at hrun
        cases hrun
      · exact entries_ok n (m + 1) hrest i hlt (by omega)
    · exact ⟨r, hr⟩

/-- **A parser that stands at a record** finds the positions of the records up to
    the end of its document. -/
theorem positionsFrom_stands (hdoc : doc = input.take doc.length) (n : ℕ) :
    ∀ (m fuel : ℕ) (e : Engine), Stands cfg input start doc m e → n < fuel →
      place cfg input start (m + n) = doc.length →
      (∀ i < n, place cfg input start (m + i) < doc.length) →
      positionsFrom cfg doc fuel e = entries cfg input start n m := by
  have hdocle : doc.length ≤ input.length := by
    have := congrArg List.length hdoc
    rw [List.length_take] at this
    omega
  induction n with
  | zero =>
    intro m fuel e hstands hfuel hend _
    obtain ⟨fuel, rfl⟩ := Nat.exists_eq_add_of_lt hfuel
    have hnext : SliceParser.nextRecord cfg none doc e =
        .ok none { e with cursorStart := none } := by
      unfold SliceParser.nextRecord
      have hadvance : advance cfg none doc e = .ok false { e with cursorStart := none } := by
        rw [advance_between h.skips hstands.toBetween, if_pos (hstands.location.trans hend)]
      rw [bind_ok hadvance]
      rfl
    rw [positionsFrom, hnext]
    rfl
  | succ n ih =>
    intro m fuel e hstands hfuel hend hlt
    obtain ⟨fuel, rfl⟩ : ∃ k, fuel = k + 1 := ⟨fuel - 1, by omega⟩
    have hin : place cfg input start m < doc.length := hlt 0 (Nat.succ_pos n)
    have hm : place cfg input start m < place cfg input start (m + 1) :=
      place_lt h (Nat.lt_succ_self m) (Nat.lt_of_lt_of_le hin hdocle)
    have hstop : place cfg input start (m + 1) ≤ doc.length :=
      hend ▸ place_mono h (by omega)
    have hread := nextRecord_reads h hdoc hm hstop hstands
    rw [positionsFrom, entries]
    rcases hr : readAt cfg none input start m with fault | r <;> rw [hr] at hread
    · obtain ⟨e', he⟩ := hread
      rw [he]
    · obtain ⟨record, e', he, hstart, hpasses⟩ := hread
      obtain ⟨hline, hstands'⟩ := hpasses.stands h hstands hstop
      have hnext : m + 1 + n = m + (n + 1) := by omega
      have hrest := ih (m + 1) fuel _ hstands' (by omega) (by rw [hnext]; exact hend)
        fun i hi => by
          rw [Nat.add_assoc, Nat.add_comm 1 i]
          exact hlt (i + 1) (Nat.succ_lt_succ hi)
      rw [he]
      simp only [hstart, hline, hrest]

/-! ## Chunks -/

/-- A document has finitely many records. -/
theorem exists_records : ∃ N, place cfg input start N = input.length ∧
    ∀ i < N, place cfg input start i < input.length := by
  classical
  have hsome : ∃ m, ¬ place cfg input start m < input.length := by
    refine ⟨input.length, fun hlt => ?_⟩
    have := place_add h (m := 0) input.length fun i hi => by
      rw [Nat.zero_add]
      exact Nat.lt_of_le_of_lt (place_mono h (Nat.le_of_lt hi)) hlt
    rw [Nat.zero_add] at this
    omega
  refine ⟨Nat.find hsome, ?_, fun i hi => not_not.mp (Nat.find_min hsome hi)⟩
  exact Nat.le_antisymm (place_le h _) (Nat.le_of_not_lt (Nat.find_spec hsome))

omit h in
theorem build_take (hbuild : SliceParser.build cfg input = .ok (fromConfig cfg input)) (n : ℕ) :
    SliceParser.build cfg (input.take n) = .ok (fromConfig cfg (input.take n)) := by
  unfold SliceParser.build at hbuild ⊢
  split_ifs at hbuild with hbom
  rw [if_neg]
  rintro ⟨hreject, hprefix⟩
  refine hbom ⟨hreject, List.isPrefixOf_iff_prefix.mpr ?_⟩
  exact (List.isPrefixOf_iff_prefix.mp hprefix).trans (List.take_prefix n input)

variable {starts : List ℕ} {N : ℕ}

omit h in
variable (starts N) in
/-- The record behind a chunk. -/
def chunkStop (i : ℕ) : ℕ := (starts[i + 1]?).getD N

/-- **A chunk** has the positions of its records. -/
theorem parseIndexChunk_entries
    (hbuild : SliceParser.build cfg input = .ok (fromConfig cfg input))
    (hN : place cfg input start N = input.length)
    (hrecords : ∀ i < N, place cfg input start i < input.length) {i a : ℕ}
    (hle : a ≤ chunkStop starts N i) (hstopN : chunkStop starts N i ≤ N) :
    parseIndexChunk cfg input (starts.map (after cfg.dialect input start)) i
        (after cfg.dialect input start a) =
      (entries cfg input start (chunkStop starts N i - a) a).mapError .parse := by
  have hstop : ((starts.map (after cfg.dialect input start))[i + 1]?).elim input.length (·.byte) =
      place cfg input start (chunkStop starts N i) := by
    unfold chunkStop
    rw [List.getElem?_map]
    rcases starts[i + 1]? with _ | b
    · exact hN.symm
    · rfl
  unfold parseIndexChunk
  simp only [hstop]
  generalize chunkStop starts N i = b at hle hstopN ⊢
  have hb := place_le h b
  have hlength : (input.take (place cfg input start b)).length = place cfg input start b := by
    rw [List.length_take, Nat.min_eq_left hb]
  have hdoc : input.take (place cfg input start b) =
      input.take (input.take (place cfg input start b)).length := by rw [hlength]
  rw [build_take hbuild]
  generalize input.take (place cfg input start b) = doc at hlength hdoc ⊢
  have hmono := place_mono h hle
  have hready := ready_fromConfig doc h.headers
  have hseek : SliceParser.seek cfg doc (after cfg.dialect input start a) (fromConfig cfg doc) =
      .ok ((fromConfig cfg doc).seekTo (after cfg.dialect input start a)) := by
    have hensure : ensureHeaders cfg doc (fromConfig cfg doc) = .ok () (fromConfig cfg doc) := by
      unfold ensureHeaders
      rw [get_bind, if_pos hready.headers]
      rfl
    unfold SliceParser.seek
    rw [if_neg, hensure]
    show ¬ place cfg input start a > doc.length
    omega
  have hstands : Stands cfg input start doc a
      ((fromConfig cfg doc).seekTo (after cfg.dialect input start a)) := by
    refine ⟨⟨rfl, hready.headers, rfl, nofun⟩, rfl, rfl, fun byte hlow hhigh => ?_, Nat.le_refl _,
      rfl⟩
    have hsame : doc.take byte = input.take byte := by
      rw [hdoc, List.take_take, Nat.min_eq_left hhigh]
    have hbyte : byte ≤ input.length := by omega
    have hslice : ∀ pos, slice doc pos byte = slice input pos byte := by
      intro pos
      unfold slice
      rw [hsame]
    rw [← physicalLine_after h.start_le h.line a (show place cfg input start a ≤ byte from hlow)]
    show physicalLine doc (max (after cfg.dialect input start a).line 1)
      (after cfg.dialect input start a).byte byte = _
    unfold physicalLine
    simp only [Nat.min_eq_left hhigh, Nat.min_eq_left hbyte, hslice]
  have hcount : place cfg input start a + (b - a) ≤ place cfg input start (a + (b - a)) :=
    place_add h (b - a) fun i hi => hrecords _ (by omega)
  rw [Nat.add_sub_cancel' hle] at hcount
  have hrun := positionsFrom_stands h hdoc (b - a) a (doc.length + 1) _ hstands (by omega)
    (by rw [Nat.add_sub_cancel' hle, hlength])
    (fun i hi => by
      rw [hlength]
      exact place_lt h (by omega) (hrecords _ (by omega)))
  simp only [hseek, hrun]

/-- The serial build has the positions of all records. -/
theorem buildPositionsSerial_entries
    (hbuild : SliceParser.build cfg input = .ok (fromConfig cfg input))
    (hstart : start = SliceParser.location input (fromConfig cfg input))
    (hN : place cfg input start N = input.length)
    (hrecords : ∀ i < N, place cfg input start i < input.length) :
    buildPositionsSerial cfg input = (entries cfg input start N 0).mapError .parse := by
  have hready := ready_fromConfig input h.headers
  have hstands : Stands cfg input start input 0 (fromConfig cfg input) := by
    have hlocation : (fromConfig cfg input).location = start.byte := by rw [hstart]; rfl
    refine ⟨⟨rfl, hready.headers, rfl, nofun⟩, hlocation, by rw [hstart]; rfl,
      fun byte hlow hhigh => ?_, Nat.zero_le _, rfl⟩
    rw [hstart]
    exact (physicalLine_rebase (Nat.zero_le _) hlow hhigh).symm
  have hcount := place_add h (m := 0) N fun i hi => by
    rw [Nat.zero_add]
    exact hrecords i hi
  rw [Nat.zero_add, hN] at hcount
  have hrun := positionsFrom_stands h (List.take_length).symm N 0 (input.length + 1) _ hstands
    (by omega) (by rw [Nat.zero_add, hN])
    (fun i hi => by
      rw [Nat.zero_add]
      exact hrecords i hi)
  unfold buildPositionsSerial
  rw [hbuild]
  simp only [hrun]

/-! ## The chunks one after another -/

omit h in
variable (cfg input start starts N) in
/-- The chunks begin at the records `starts`, of `N`. -/
structure Cuts : Prop where
  head : starts.head? = some 0
  sorted : starts.Pairwise (· < ·)
  inside : ∀ i b, starts[i + 1]? = some b → place cfg input start b < input.length
  total : place cfg input start N = input.length
  records : ∀ i < N, place cfg input start i < input.length

section cuts

variable (hcuts : Cuts cfg input start starts N)

include hcuts

theorem Cuts.lt_total {i b : ℕ} (hb : starts[i + 1]? = some b) : b < N := by
  by_contra hge
  have hmono := place_mono h (Nat.le_of_not_lt hge)
  have hin := hcuts.inside i b hb
  rw [hcuts.total] at hmono
  omega

theorem Cuts.bounds {i a : ℕ} (ha : starts[i]? = some a) :
    a ≤ chunkStop starts N i ∧ chunkStop starts N i ≤ N := by
  unfold chunkStop
  rcases hb : starts[i + 1]? with _ | b
  · refine ⟨?_, Nat.le_refl N⟩
    cases i with
    | zero =>
      have hhead := hcuts.head
      rw [List.head?_eq_getElem?, ha] at hhead
      rw [Option.some.inj hhead]
      exact Nat.zero_le N
    | succ i => exact Nat.le_of_lt (hcuts.lt_total h ha)
  · exact ⟨Nat.le_of_lt (Unordered.starts_lt hcuts.sorted (Nat.lt_succ_self i) ha hb),
      Nat.le_of_lt (hcuts.lt_total h hb)⟩

variable (hbuild : SliceParser.build cfg input = .ok (fromConfig cfg input))

include hbuild

theorem chunk_entries {i a : ℕ} (ha : starts[i]? = some a) :
    parseIndexChunk cfg input (starts.map (after cfg.dialect input start)) i
        (after cfg.dialect input start a) =
      (entries cfg input start (chunkStop starts N i - a) a).mapError .parse := by
  obtain ⟨hle, hstop⟩ := hcuts.bounds h ha
  exact parseIndexChunk_entries h hbuild hcuts.total hcuts.records hle hstop

/-- **The chunks one after another** have the positions of all records. -/
theorem sequence_entries : ∀ (rest : List ℕ) (i a : ℕ), starts.drop i = a :: rest →
    (sequence (parseIndexChunk cfg input (starts.map (after cfg.dialect input start))) i
        ((a :: rest).map (after cfg.dialect input start))).map List.flatten =
      (entries cfg input start (N - a) a).mapError .parse
  | [], i, a, hdrop => by
    have ha : starts[i]? = some a := Window.getElem?_of_drop (u := []) hdrop rfl
    have hrest : starts.drop (i + 1) = [] := Window.drop_of_drop (u := [a]) hdrop rfl
    have hstop : chunkStop starts N i = N := by
      unfold chunkStop
      rw [List.getElem?_eq_none (List.drop_eq_nil_iff.mp hrest)]
      rfl
    rw [List.map_singleton, sequence, chunk_entries h hcuts hbuild ha, hstop]
    rcases entries cfg input start (N - a) a with fault | positions
    · rfl
    · show Except.ok (List.flatten [positions]) = Except.ok positions
      rw [List.flatten_singleton]
  | b :: rest, i, a, hdrop => by
    have ha : starts[i]? = some a := Window.getElem?_of_drop (u := []) hdrop rfl
    have hrest : starts.drop (i + 1) = b :: rest := Window.drop_of_drop (u := [a]) hdrop rfl
    have hb : starts[i + 1]? = some b := Window.getElem?_of_drop (u := []) hrest rfl
    have hstop : chunkStop starts N i = b := by
      unfold chunkStop
      rw [hb]
      rfl
    have hlt := Unordered.starts_lt hcuts.sorted (Nat.lt_succ_self i) ha hb
    have hN := hcuts.lt_total h hb
    have ih := sequence_entries rest (i + 1) b hrest
    rw [List.map_cons, sequence, chunk_entries h hcuts hbuild ha, hstop,
      show N - a = (b - a) + (N - b) by omega, entries_add, Nat.add_sub_cancel' (Nat.le_of_lt hlt)]
    rcases entries cfg input start (b - a) a with fault | positions
    · rfl
    · show ((positions :: ·) <$> sequence _ (i + 1) _).map List.flatten =
        Except.mapError .parse ((positions ++ ·) <$> entries cfg input start (N - b) b)
      rcases hseq : sequence (parseIndexChunk cfg input (starts.map (after cfg.dialect input start)))
        (i + 1) ((b :: rest).map (after cfg.dialect input start)) with failure | chunks <;>
        rw [hseq] at ih <;>
        rcases hall : entries cfg input start (N - b) b with fault | later <;> rw [hall] at ih
      · exact congrArg _ (Except.error.inj ih)
      · cases ih
      · cases ih
      · show Except.ok (List.flatten (positions :: chunks)) = Except.ok (positions ++ later)
        rw [List.flatten_cons, Except.ok.inj ih]

/-- A chunk that fails has a first record that does. -/
theorem chunk_fails {i : ℕ} {failure : Failure}
    (hi : Ends (starts.map (after cfg.dialect input start))
      (parseIndexChunk cfg input (starts.map (after cfg.dialect input start))) i (.error failure)) :
    ∃ a M fault, starts[i]? = some a ∧ failure = .parse fault ∧ a ≤ M ∧ M < chunkStop starts N i ∧
      readAt cfg none input start M = .error fault ∧
      ∀ j, a ≤ j → j < M → ∃ r, readAt cfg none input start j = .ok r := by
  obtain ⟨b, hb, hrun⟩ := hi
  rw [List.getElem?_map] at hb
  obtain ⟨a, ha, rfl⟩ := Option.map_eq_some_iff.mp hb
  rw [chunk_entries h hcuts hbuild ha] at hrun
  rcases hentries : entries cfg input start (chunkStop starts N i - a) a with fault | positions <;>
    rw [hentries] at hrun
  · obtain ⟨M, hlow, hhigh, hM, hbefore⟩ := entries_error _ _ hentries
    exact ⟨a, M, fault, ha, (Except.error.inj hrun).symm, hlow, by omega, hM, hbefore⟩
  · cases hrun

theorem chunk_passes {i : ℕ} {positions : List Position}
    (hi : Ends (starts.map (after cfg.dialect input start))
      (parseIndexChunk cfg input (starts.map (after cfg.dialect input start))) i (.ok positions)) :
    ∃ a, starts[i]? = some a ∧
      ∀ j, a ≤ j → j < chunkStop starts N i → ∃ r, readAt cfg none input start j = .ok r := by
  obtain ⟨b, hb, hrun⟩ := hi
  rw [List.getElem?_map] at hb
  obtain ⟨a, ha, rfl⟩ := Option.map_eq_some_iff.mp hb
  rw [chunk_entries h hcuts hbuild ha] at hrun
  rcases hentries : entries cfg input start (chunkStop starts N i - a) a with fault | positions' <;>
    rw [hentries] at hrun
  · cases hrun
  · exact ⟨a, ha, fun j h1 h2 => entries_ok _ _ hentries j h1 (by omega)⟩

omit h hcuts hbuild in
variable (cfg input start) in
/-- The first record that fails. -/
structure FirstFault (M : ℕ) (fault : Fault) : Prop where
  inside : place cfg input start M < input.length
  fails : readAt cfg none input start M = .error fault
  first : ∀ i < M, ∃ r, readAt cfg none input start i = .ok r

/-- The first chunk that fails has the first record that does. -/
theorem first_of_chunk {k : ℕ} {failure : Failure}
    (hk : FirstFails (starts.map (after cfg.dialect input start))
      (parseIndexChunk cfg input (starts.map (after cfg.dialect input start))) k failure) :
    ∃ a M fault, starts[k]? = some a ∧ failure = .parse fault ∧ a ≤ M ∧ M < chunkStop starts N k ∧
      FirstFault cfg input start M fault := by
  obtain ⟨a, M, fault, ha, hfailure, hlow, hhigh, hM, hbefore⟩ := chunk_fails h hcuts hbuild hk.fails
  have hstop := (hcuts.bounds h ha).2
  refine ⟨a, M, fault, ha, hfailure, hlow, hhigh, hcuts.records M (by omega), hM, fun i hi => ?_⟩
  rcases Nat.lt_or_ge i a with hlt | hge
  swap
  · exact hbefore i hge hi
  -- the record lies in a chunk that was read in front of this one
  obtain ⟨j, a', ha', hle, hlast⟩ := Unordered.exists_chunk i starts 0 hcuts.head (Nat.zero_le i)
  have hjk : j < k := by
    by_contra hjk
    rcases Nat.lt_or_eq_of_le (Nat.le_of_not_lt hjk) with hkj | rfl
    · have := Unordered.starts_lt hcuts.sorted hkj ha ha'
      omega
    · have := Option.some.inj (ha.symm.trans ha')
      omega
  obtain ⟨positions, hpasses⟩ := hk.first j hjk
  obtain ⟨a'', ha'', hread⟩ := chunk_passes h hcuts hbuild hpasses
  obtain rfl := Option.some.inj (ha'.symm.trans ha'')
  refine hread i hle ?_
  unfold chunkStop
  rcases hb : starts[j + 1]? with _ | b
  · have hle' := (hcuts.bounds h ha).1
    show i < N
    omega
  · exact hlast b hb

omit h hcuts hbuild in
variable (cfg input start starts) in
/-- What the threads rely on: where the first failure of the document is an
    error, no record behind it panics, and the next one does not fail at the
    byte of that error, where it begins a chunk. -/
structure Untied : Prop where
  panics : ∀ M kind location, FirstFault cfg input start M (.error kind location) →
    ∀ n, M < n → place cfg input start n < input.length →
      readAt cfg none input start n ≠ .error .panic
  untied : ∀ M kind location, FirstFault cfg input start M (.error kind location) →
    M + 1 ∈ starts → ∀ kind' location',
      readAt cfg none input start (M + 1) = .error (.error kind' location') →
      location'.byte ≠ location.byte

/-- The errors of the chunks are in order. -/
theorem orderly (huntied : Untied cfg input start starts) :
    Orderly (starts.map (after cfg.dialect input start))
      (parseIndexChunk cfg input (starts.map (after cfg.dialect input start))) where
  sorted := by
    rw [List.map_map]
    refine List.pairwise_map.mpr (List.pairwise_iff_getElem.mpr fun i j hi hj hij => ?_)
    obtain ⟨j, rfl⟩ := Nat.exists_eq_add_of_lt hij
    have hat : starts[i + j + 1]? = some starts[i + j + 1] := List.getElem?_eq_getElem hj
    have hlt := Unordered.starts_lt hcuts.sorted hij (List.getElem?_eq_getElem hi) hat
    exact place_lt h hlt (Nat.lt_of_le_of_lt (place_mono h (Nat.le_of_lt hlt))
      (hcuts.inside (i + j) _ hat))
  behind := by
    intro i b failure hb hrun hlive
    obtain ⟨a, M, fault, ha, rfl, hlow, -, hM, -⟩ := chunk_fails h hcuts hbuild ⟨b, hb, hrun⟩
    rw [List.getElem?_map, ha] at hb
    obtain rfl := Option.some.inj hb
    cases fault with
    | error kind location => exact Nat.le_trans (place_mono h hlow) (read_within h hM).1
    | panic => cases hlive
    | stuck => cases hlive
  panic := by
    intro i failure fault hi hfault
    obtain ⟨a, M, fault', -, rfl, -, -, hM, -⟩ := chunk_fails h hcuts hbuild hi
    cases fault' with
    | error kind location => cases hfault
    | panic => exact (Option.some.inj hfault).symm
    | stuck => exact absurd hM (read_ne_stuck h M)
  ahead := by
    intro k failure hk hlive j failure' hkj hj
    obtain ⟨a, M, fault, ha, rfl, hlow, hhigh, hfirst⟩ := first_of_chunk h hcuts hbuild hk
    obtain ⟨a', M', fault', ha', rfl, hlow', hhigh', hM', -⟩ := chunk_fails h hcuts hbuild hj
    have hinside := hcuts.records M' (Nat.lt_of_lt_of_le hhigh' (hcuts.bounds h ha').2)
    have hstop : chunkStop starts N k ≤ a' := by
      have hlen := (List.getElem?_eq_some_iff.mp ha').1
      have hb : starts[k + 1]? = some starts[k + 1] := List.getElem?_eq_getElem (by omega)
      unfold chunkStop
      rw [hb, Option.getD_some]
      rcases Nat.lt_or_eq_of_le (Nat.succ_le_of_lt hkj) with hlt | rfl
      · exact Nat.le_of_lt (Unordered.starts_lt hcuts.sorted hlt hb ha')
      · exact Nat.le_of_eq (Option.some.inj (hb.symm.trans ha'))
    cases fault with
    | panic => cases hlive
    | stuck => cases hlive
    | error kind location =>
      cases fault' with
      | panic => exact absurd hM' (huntied.panics M kind location hfirst M' (by omega) hinside)
      | stuck => exact absurd hM' (read_ne_stuck h M')
      | error kind' location' =>
        refine ⟨rfl, ?_⟩
        show location.byte < location'.byte ∨ _
        have hle := (read_within h hfirst.fails).2
        have hge := (read_within h hM').1
        have hmono := place_mono h (show M + 1 ≤ M' by omega)
        rcases Nat.lt_or_ge location.byte location'.byte with hlt | heq
        · exact Or.inl hlt
        -- both errors belong to the byte between two records
        have hnext : M' = M + 1 := by
          by_contra hne
          have := place_lt h (show M + 1 < M' by omega) (by omega)
          omega
        have hchunk : a' = M + 1 := by omega
        subst hnext
        refine absurd (Nat.le_antisymm heq (by omega)) (huntied.untied M kind location hfirst ?_ kind'
          location' hM')
        exact hchunk ▸ List.mem_of_getElem? ha'

end cuts

end indexable

/-! ## The build -/

/-- Where the first record of a document begins. -/
def origin : Boundary := SliceParser.location input (fromConfig cfg input)

/-- The chunks of a build with so many threads. -/
def chunks (threads : ℕ) : List Boundary :=
  boundaries cfg.dialect input (origin cfg input) (threads * chunksPerThread)

/-- The documents of which the threads build the serial index. -/
structure Separable (threads : ℕ) : Prop where
  /-- spans address the whole document -/
  short : input.length ≤ Span.maxOffset
  /-- white space that parsing skips is no quote and no record ending -/
  initialSpace : cfg.skipInitialSpace = true →
    cfg.dialect.quote ≠ 32 ∧ cfg.dialect.recordEnding.byte ≠ 32
  trailingSpace : cfg.syntax'.permitsTrailingWhitespace = true →
    (∀ b, isTrailingSpace b = true → b ≠ cfg.dialect.quote ∧ b ≠ cfg.dialect.recordEnding.byte) ∧
      (cfg.dialect.recordEnding = .newline → cfg.dialect.quote ≠ 13)
  /-- no record behind the first failure panics -/
  panics : ∀ M kind location, FirstFault cfg input (origin cfg input) M (.error kind location) →
    ∀ n, M < n → place cfg input (origin cfg input) n < input.length →
      readAt cfg none input (origin cfg input) n ≠ .error .panic
  /-- the record behind the first failure does not fail at the byte of that
      failure, where it begins a chunk -/
  untied : ∀ M kind location, FirstFault cfg input (origin cfg input) M (.error kind location) →
    after cfg.dialect input (origin cfg input) (M + 1) ∈ chunks cfg input threads →
      ∀ kind' location',
        readAt cfg none input (origin cfg input) (M + 1) = .error (.error kind' location') →
        location'.byte ≠ location.byte

variable {input} in
theorem Separable.indexable {o : IndexOptions} {host : Host} {threads : ℕ}
    (hsupported : parallelIndexSupported o.format.toFormatSettings = true)
    (h : Separable (o.settings host) input threads) :
    Indexable (o.settings host) input (origin (o.settings host) input) := by
  unfold parallelIndexSupported at hsupported
  simp only [Bool.and_eq_true, decide_eq_true_eq, Bool.not_eq_true'] at hsupported
  obtain ⟨⟨⟨⟨⟨hcomment, hescape⟩, hsingle⟩, hquoting⟩, hunquoted⟩, hblank⟩ := hsupported
  refine ⟨⟨o.valid.sound, ParserSettings.follows_none _, hescape, hsingle, hquoting, hunquoted,
    h.initialSpace, h.trailingSpace⟩, nofun, nofun, ?_, ?_, Nat.le_add_right 1 _, h.short⟩
  · have hnone : o.format.dialect.comment = none := Option.isNone_iff_eq_none.mp hcomment
    show (o.format.dialect.comment.isSome || o.format.blankRecords == .skip) = false
    rw [hnone, beq_eq_false_iff_ne.mpr hblank]
    rfl
  · show (fromConfig (o.settings host) input).location ≤ input.length
    unfold fromConfig fromConfigWithOwnedParser
    simp only
    split_ifs with hbom
    · exact (List.isPrefixOf_iff_prefix.mp hbom.2).length_le
    · exact Nat.zero_le _

/-- **Threads build the serial index**: whatever their schedule, they end with
    the positions that one parser finds, or with its error. -/
theorem buildsParallel_serial (o : IndexOptions) (host : Host) (input : Bytes) (threads : ℕ)
    (hsupported : parallelIndexSupported o.format.toFormatSettings = true)
    (h : Separable (o.settings host) input threads) :
    (∃ r, BuildsParallel (o.settings host) input threads r) ∧
      (∀ r, BuildsParallel (o.settings host) input threads r →
        r = buildPositionsSerial (o.settings host) input) ∧
      ∃ n, ∀ (schedule : List Action) (s : IndexSystem (List Position)),
        IndexSystem.run (chunks (o.settings host) input threads)
          (parseIndexChunk (o.settings host) input (chunks (o.settings host) input threads)) schedule
          (IndexSystem.spawn (max (min threads (chunks (o.settings host) input threads).length) 1)) =
            some s → schedule.length ≤ n := by
  have hindex := h.indexable hsupported
  have hseparable := h
  generalize hcfg : o.settings host = cfg at hindex hseparable ⊢
  have hbounded : ∀ (workers : ℕ), ∃ n, ∀ (schedule : List Action) (s : IndexSystem (List Position)),
      IndexSystem.run (chunks cfg input threads)
        (parseIndexChunk cfg input (chunks cfg input threads)) schedule
        (IndexSystem.spawn workers) = some s → schedule.length ≤ n :=
    fun workers => ⟨_, fun schedule s hrun =>
      Nat.le_of_add_right_le ((ranked _ _).run_length trivial hrun)⟩
  rcases hbuild : SliceParser.build cfg input with fault | probe
  · refine ⟨⟨_, .unprepared hbuild⟩, fun r hr => ?_, hbounded _⟩
    unfold buildPositionsSerial
    rw [hbuild]
    cases hr with
    | unprepared hb => rw [Except.error.inj (hbuild.symm.trans hb)]
    | misplaced hb _ => cases hbuild.symm.trans hb
    | threads hb _ _ _ _ => cases hbuild.symm.trans hb
  obtain rfl : probe = fromConfig cfg input := by
    unfold SliceParser.build at hbuild
    split_ifs at hbuild
    exact (Except.ok.inj hbuild).symm
  have hseek : SliceParser.seek cfg input (origin cfg input) (fromConfig cfg input) =
      .ok ((fromConfig cfg input).seekTo (origin cfg input)) := by
    have hensure : ensureHeaders cfg input (fromConfig cfg input) = .ok () (fromConfig cfg input) := by
      unfold ensureHeaders
      rw [get_bind, if_pos (ready_fromConfig input hindex.headers).headers]
      rfl
    unfold SliceParser.seek
    rw [if_neg (Nat.not_lt_of_le hindex.start_le), hensure]
  obtain ⟨ns, hchunks, hsorted, hinside⟩ :=
    boundaries_spec cfg.dialect hindex.start_le (threads * chunksPerThread)
  obtain ⟨N, htotal, hrecords⟩ := exists_records hindex
  have hcuts : Cuts cfg input (origin cfg input) (0 :: ns) N :=
    ⟨rfl, hsorted, fun i b hb => hinside b (List.mem_of_getElem? hb), htotal, hrecords⟩
  have hchunks' : chunks cfg input threads = (0 :: ns).map (after cfg.dialect input (origin cfg input)) :=
    hchunks
  have huntied : Untied cfg input (origin cfg input) (0 :: ns) := by
    refine ⟨hseparable.panics, fun M kind location hfirst hmem => ?_⟩
    refine hseparable.untied M kind location hfirst ?_
    rw [hchunks']
    exact List.mem_map_of_mem hmem
  have horderly := orderly hindex hcuts hbuild huntied
  have hserial : (sequence (parseIndexChunk cfg input (chunks cfg input threads)) 0
      (chunks cfg input threads)).map List.flatten = buildPositionsSerial cfg input := by
    have hall := sequence_entries hindex hcuts hbuild ns 0 0 rfl
    rw [Nat.sub_zero] at hall
    rw [hchunks', hall, buildPositionsSerial_entries hindex hbuild rfl htotal hrecords]
  rw [← hchunks'] at horderly
  refine ⟨?_, fun r hr => ?_, hbounded _⟩
  · obtain ⟨schedule, s, hrun, outcome, ho⟩ := (ranked (chunks cfg input threads)
      (parseIndexChunk cfg input (chunks cfg input threads))).exists_end
      (fun s _ hs => step_of_unfinished _ _ hs) (s := IndexSystem.spawn _) trivial
    exact ⟨_, .threads hbuild hseek rfl hrun ho⟩
  · cases hr with
    | unprepared hb => cases hbuild.symm.trans hb
    | misplaced hb hs =>
      obtain rfl := Except.ok.inj (hbuild.symm.trans hb)
      cases hseek.symm.trans hs
    | @threads _ _ _ schedule s outcome hb _ hc hrun ho =>
      obtain rfl := Except.ok.inj (hbuild.symm.trans hb)
      obtain rfl : _ = chunks cfg input threads := hc
      have hworkers : s.workers ≠ [] := by
        refine List.ne_nil_of_length_pos ?_
        rw [Pool.run_workers hrun]
        unfold IndexSystem.spawn
        rw [List.length_replicate]
        exact Nat.lt_of_lt_of_le Nat.one_pos (Nat.le_max_right _ 1)
      have houtcome := outcome_sequence horderly ((keeps_inv horderly).run (spawn_inv _) hrun)
        (fun hall => ((keeps_accounted horderly hall).run ⟨spawn_inv _, spawn_accounted _ _⟩ hrun).2)
        hworkers ho
      rw [houtcome, hserial]

/-- An index of comma-separated values. -/
def plain : IndexOptions where
  format := .csv
  limits := .default
  valid := by decide

/-- An index of strict records of at most three bytes. -/
def strict : IndexOptions where
  format := .builtIn .rfc4180 { dialect := .rfc4180, readBom := .reject } rfl
  limits := { Limits.default with maxRecordBytes := 3 }
  valid := by decide

def machine : Host := ⟨true, true, true⟩

/-- A document of three records of which the second is malformed. -/
def malformed : Bytes := [97, 10, 34, 98, 34, 99, 10, 100, 10]

/-- Two threads report the malformed record. -/
theorem buildsParallel_serial_malformed :
    ∃ r, BuildsParallel (plain.settings machine) malformed 2 r ∧
      r = .error (.parse (.error (.unexpectedByteAfterQuote 99) ⟨5, 2, 1, 1⟩)) := by
  have hthree : place (plain.settings machine) malformed
      (origin (plain.settings machine) malformed) 3 = malformed.length := by decide
  have hin : ∀ m, place (plain.settings machine) malformed
      (origin (plain.settings machine) malformed) m < malformed.length → m < 3 := by
    intro m hm
    by_contra hge
    have hmono : place (plain.settings machine) malformed
        (origin (plain.settings machine) malformed) 3 ≤
          place (plain.settings machine) malformed (origin (plain.settings machine) malformed) m :=
      recordStart_mono (by decide) (Nat.le_of_not_lt hge)
    omega
  have hreads : ∀ m < 3, (readAt (plain.settings machine) none malformed
      (origin (plain.settings machine) malformed) m).isOk = decide (m ≠ 1) ∧
      readAt (plain.settings machine) none malformed
        (origin (plain.settings machine) malformed) m ≠ .error .panic := by decide +kernel
  have hsep : Separable (plain.settings machine) malformed 2 := by
    refine ⟨by decide, nofun, nofun, fun M kind location _ n _ hn => (hreads n (hin n hn)).2,
      fun M kind location hfirst hmem kind' location' hr => ?_⟩
    have hM := (hreads M (hin M hfirst.inside)).1
    rw [hfirst.fails] at hM
    obtain rfl : M = 1 := by simpa [Except.isOk, Except.toBool] using hM
    have htwo := (hreads 2 (by decide)).1
    rw [hr] at htwo
    cases htwo
  obtain ⟨⟨r, hr⟩, hserial, -⟩ := buildsParallel_serial plain machine malformed 2 (by decide) hsep
  refine ⟨r, hr, (hserial r hr).trans ?_⟩
  decide +kernel

/-- The error of the first record and that of the second belong to one byte: the
    thread that was spawned first decides. -/
theorem buildsParallel_serial_tie :
    ¬ ∀ (o : IndexOptions) (host : Host) (input : Bytes) (threads : ℕ)
      (r : Except Failure (List Position)),
      parallelIndexSupported o.format.toFormatSettings = true →
      BuildsParallel (o.settings host) input threads r →
      r = buildPositionsSerial (o.settings host) input := by
  intro h
  have hrun : ((IndexSystem.run (chunks (strict.settings machine) [97, 98, 13, 10, 10] 2)
      (parseIndexChunk (strict.settings machine) [97, 98, 13, 10, 10]
        (chunks (strict.settings machine) [97, 98, 13, 10, 10] 2))
      ([1, 0, 0, 0, 0, 1, 1, 1].map fun i => ⟨i, 0⟩) (IndexSystem.spawn 2)).bind
        IndexSystem.outcome) =
      some (.error (.parse (.error (.invalidRecordEnding 10) ⟨4, 2, 1, 0⟩))) := by
    decide +kernel
  obtain ⟨s, hs, ho⟩ := Option.bind_eq_some_iff.mp hrun
  have hbuild : SliceParser.build (strict.settings machine) [97, 98, 13, 10, 10] =
      .ok (fromConfig (strict.settings machine) [97, 98, 13, 10, 10]) := rfl
  have hparallel := h strict machine [97, 98, 13, 10, 10] 2 _ (by decide)
    (.threads hbuild rfl rfl hs ho)
  have hserial : buildPositionsSerial (strict.settings machine) [97, 98, 13, 10, 10] =
      .error (.parse (.error (.recordTooLarge 3) ⟨4, 2, 0, 1⟩)) := by
    decide +kernel
  rw [hserial] at hparallel
  cases hparallel

end CsvIndex

end Coseva
