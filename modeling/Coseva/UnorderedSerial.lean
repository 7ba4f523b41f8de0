/-
  Coseva — an unordered run fails as the serial run does.

  * `foldFrom_first`: the serial run ends with the first failure;
  * `ranked`: every step of a thread brings the run nearer to its end;
  * `ParallelParser.Separate`: what the failure of a call depends on;
  * `ParallelParser.failure_serial`: every call ends, with the failure of the
    serial run.
-/
import Coseva.Unordered

namespace Coseva

open Split Engine Run

/-- Two outcomes agree but for the accumulators. -/
inductive Outcome.Like {T E : Type} : Outcome T E → Outcome T E → Prop
  | done (accs accs' : List T) : Like (.done accs) (.done accs')
  | failed (error : E) : Like (.failed error) (.failed error)
  | aborted (fault : Fault) : Like (.aborted fault) (.aborted fault)

namespace Unordered

variable {T E : Type} {cfg : ParserSettings} {F : CsvFormat} {input : Bytes} {start : Boundary}
  {c : Closure T E}

/-! ## The serial run -/

/-- A document has a first failure or none. -/
theorem first_or_none (cfg : ParserSettings) (F : CsvFormat) (input : Bytes) (start : Boundary)
    (c : Closure T E) :
    (∃ M f, First cfg F input start c M f) ∨ ∀ m, verdict cfg F input start c m = none := by
  classical
  by_cases h : ∃ m, verdict cfg F input start c m ≠ none
  · obtain ⟨f, hf⟩ := Option.ne_none_iff_exists'.mp (Nat.find_spec h)
    refine Or.inl ⟨Nat.find h, f, hf, fun n hn => ?_⟩
    have hmin := Nat.find_min h hn
    push Not at hmin
    exact hmin
  · push Not at h
    exact Or.inr h

variable (hc : Countable cfg F input start)

include hc

/-- One record of the serial run. -/
theorem nextRecord_at {m : ℕ} {e : Engine} (h : At cfg input start m e)
    (hm : place cfg input start m < input.length) :
    match readAt cfg F input start m with
    | .ok r => ∃ e', SliceParser.nextRecord cfg F input e = .ok (some r) e' ∧
        At cfg input start (m + 1) e'
    | .error fault => ∃ e', SliceParser.nextRecord cfg F input e = .error fault e' := by
  obtain ⟨hadvance, hread⟩ := reads_at hc h hm
  unfold SliceParser.nextRecord
  rw [bind_ok hadvance]
  rcases hr : readAt cfg F input start m with fault | r
  · rw [hr] at hread
    obtain ⟨e', he⟩ := hread
    exact ⟨e', map_error he⟩
  · rw [hr] at hread
    obtain ⟨e', he, hat, -⟩ := hread
    exact ⟨e', map_ok he, hat⟩

theorem nextRecord_end {m : ℕ} {e : Engine} (h : At cfg input start m e)
    (hm : ¬ place cfg input start m < input.length) :
    SliceParser.nextRecord cfg F input e = .ok none { e with cursorStart := none } := by
  unfold SliceParser.nextRecord
  rw [bind_ok (ends_at hc h hm)]
  rfl

/-- **The serial run** from the record `m` on ends with the first failure, if no
    record before `m` fails. -/
theorem foldFrom_first :
    ∀ (fuel m : ℕ) (acc : T) (e : Engine), At cfg input start m e →
      input.length < fuel + place cfg input start m →
      (∀ M f, First cfg F input start c M f → m ≤ M →
        SliceParser.foldFrom cfg F input c fuel acc e = .failed f.2) ∧
      ((∀ n, verdict cfg F input start c n = none) →
        ∃ acc', SliceParser.foldFrom cfg F input c fuel acc e = .done [acc'])
  | 0, m, _, _, _, hfuel => by
    have := recordStart_le (d := cfg.dialect) hc.start_le m
    rw [Nat.zero_add] at hfuel
    exact absurd hfuel (Nat.not_lt_of_le this)
  | fuel + 1, m, acc, e, hat, hfuel => by
    rw [SliceParser.foldFrom]
    by_cases hm : place cfg input start m < input.length
    · have hnext := nextRecord_at hc hat hm
      have hcounted := hc.counted m hm
      unfold Counted at hcounted
      rcases hr : readAt cfg F input start m with fault | r <;> rw [hr] at hnext hcounted
      · obtain ⟨e', he⟩ := hnext
        rw [he]
        cases fault with
        | error kind location =>
          have hfails : verdict cfg F input start c m =
              some (location.byte, c.ofError kind location) := by
            unfold verdict
            rw [if_pos hm, hr]; rfl
          refine ⟨fun M f hM hmM => ?_, fun hnone => ?_⟩
          · rcases Nat.lt_or_eq_of_le hmM with hlt | rfl
            · rw [hM.first m hlt] at hfails; cases hfails
            · rw [hM.fails] at hfails
              cases hfails
              rfl
          · rw [hnone m] at hfails; cases hfails
        | panic => exact hcounted.elim
        | stuck => exact hcounted.elim
      · obtain ⟨e', he, hat'⟩ := hnext
        have hverdict := verdict_read (c := c) hm hr
        rw [he]
        simp only
        rcases hrefuses : c.refuses r with _ | error <;> rw [hrefuses] at hverdict
        · have hlt : place cfg input start m < place cfg input start (m + 1) :=
            place_lt hc (Nat.lt_succ_self m) hm
          have hrest := foldFrom_first fuel (m + 1) (c.fold acc r) e' hat' (by omega)
          refine ⟨fun M f hM hmM => hrest.1 M f hM ?_, hrest.2⟩
          rcases Nat.lt_or_eq_of_le hmM with hlt | rfl
          · exact hlt
          · rw [hM.fails] at hverdict; cases hverdict
        · refine ⟨fun M f hM hmM => ?_, fun hnone => ?_⟩
          · rcases Nat.lt_or_eq_of_le hmM with hlt | rfl
            · rw [hM.first m hlt] at hverdict; cases hverdict
            · rw [hM.fails] at hverdict
              cases hverdict
              rfl
          · rw [hnone m] at hverdict; cases hverdict
    · rw [nextRecord_end hc hat hm]
      refine ⟨fun M f hM hmM => ?_, fun _ => ⟨acc, rfl⟩⟩
      have hlt := (verdict_bounds hc hM.fails).1
      exact absurd (Nat.lt_of_le_of_lt (place_mono hc hmM) hlt) hm

/-- The serial run of a document fails with its first failure. -/
theorem foldAll_first (hbuild : SliceParser.build cfg input = .ok (fromConfig cfg input)) :
    (∀ M f, First cfg F input start c M f →
      SliceParser.foldAll cfg F input c start = .failed f.2) ∧
    ((∀ n, verdict cfg F input start c n = none) →
      ∃ acc, SliceParser.foldAll cfg F input c start = .done [acc]) := by
  have hzero : after cfg.dialect input start 0 = start := by
    simp [after, recordStart, slice]
  obtain ⟨e, hseek, hat⟩ := seek_at (ready_fromConfig input hc.headers) hc.start_le
    hc.line 0
  rw [hzero] at hseek
  have hrun := foldFrom_first (F := F) (c := c) hc (input.length + 1) 0 c.init e hat (by omega)
  unfold SliceParser.foldAll
  rw [hbuild]
  simp only [hseek]
  exact ⟨fun M f hM => hrun.1 M f hM (Nat.zero_le M), hrun.2⟩

/-! ## Progress -/

omit hc in
variable (input) in
/-- How far a thread is from claiming its next chunk or ending. -/
def rank : Worker T E → ℕ
  | .claiming .. => 2
  | .reading parser .. => 4 + 2 * (input.length - parser.location)
  | .holding parser .. => 5 + 2 * (input.length - parser.location)
  | .fencing .. => 1
  | .returned .. | .aborted .. => 0

omit hc in
variable (input) in
/-- What the chunks that are left may take. -/
def left (chunks : ℕ) (shared : Shared) : ℕ := (chunks - shared.cursor) * (3 + 2 * input.length)

omit hc in
variable (input c) in
theorem ofFailure_rank (acc : T) (offset : ℕ) (failure : Failure) :
    rank input (Worker.ofFailure c acc offset failure) ≤ 1 := by
  cases failure with
  | configuration detail => exact Nat.le_refl 1
  | parse fault =>
    cases fault with
    | error kind location => exact Nat.le_refl 1
    | panic => exact Nat.zero_le 1
    | stuck => exact Nat.zero_le 1

omit hc in
variable (cfg input c) in
theorem claim_rank (chunks : List Boundary) (cursor : ℕ) (parser : Engine) (acc : T) :
    rank input (Worker.claim cfg input c chunks cursor parser acc) ≤ 4 + 2 * input.length ∧
      (chunks.length ≤ cursor → rank input (Worker.claim cfg input c chunks cursor parser acc) = 0) := by
  unfold Worker.claim
  rcases hk : chunks[cursor]? with _ | b
  · exact ⟨Nat.zero_le _, fun _ => rfl⟩
  refine ⟨?_, fun hle => ?_⟩
  · simp only
    rcases SliceParser.seek cfg input b parser with failure | e
    · have hle := ofFailure_rank input c acc b.byte failure
      simp only
      omega
    · simp only [rank]; omega
  · rw [List.getElem?_eq_none hle] at hk
    cases hk

variable (c) in
theorem read_rank {m : ℕ} {parser : Engine} (hat : At cfg input start m parser) (stop : ℕ)
    (acc : T) :
    rank input (Worker.read cfg F input c parser stop acc) <
      rank input (.reading parser stop acc : Worker T E) := by
  unfold Worker.read
  by_cases hm : place cfg input start m < input.length
  · obtain ⟨hadvance, hread⟩ := reads_at hc hat hm
    rw [hadvance]
    simp only
    rcases hr : readAt cfg F input start m with fault | r <;> rw [hr] at hread
    · obtain ⟨e, he⟩ := hread
      rw [he]
      cases fault <;> simp only [rank] <;> omega
    · obtain ⟨e, he, hat', -⟩ := hread
      have hlt : place cfg input start m < place cfg input start (m + 1) :=
        place_lt hc (Nat.lt_succ_self m) hm
      have hlow : parser.location = place cfg input start m := hat.location
      have hhigh : e.location = place cfg input start (m + 1) := hat'.location
      rw [he]
      simp only [rank]
      omega
  · rw [ends_at hc hat hm]
    simp only [rank]
    omega

omit hc in
variable (input c) in
theorem take_rank (parser : Engine) (stop : ℕ) (acc : T) (r : Record) (barrier : Option ℕ) :
    rank input (Worker.take c parser stop acc r barrier) <
      rank input (.holding parser stop acc r : Worker T E) := by
  unfold Worker.take
  by_cases hfenced : isFenced r.start barrier = true
  · rw [if_pos hfenced]
    simp only [rank]
    omega
  rw [if_neg hfenced]
  rcases c.refuses r with _ | error
  · simp only
    split_ifs <;> simp only [rank] <;> omega
  · simp only [rank]; omega

variable {starts : List ℕ} {s s' : System T E}

/-- A step of a thread takes it nearer to its end, or a chunk from those that are left. -/
theorem step_rank {seen : ℕ} {shared shared' : Shared} {w w' : Worker T E}
    (h : Sound cfg F input start c starts shared.cursor w)
    (hmove : Worker.step cfg F input c (starts.map (after cfg.dialect input start)) seen shared w =
      some (shared', w')) :
    left input starts.length shared' + rank input w' <
      left input starts.length shared + rank input w := by
  cases w with
  | claiming parser acc =>
    cases hmove
    obtain ⟨hmost, hnone⟩ := claim_rank cfg input c
      (starts.map (after cfg.dialect input start)) shared.cursor parser acc
    rw [List.length_map] at hnone
    have hclaiming : rank input (.claiming parser acc : Worker T E) = 2 := rfl
    unfold left Shared.claim
    simp only
    rcases Nat.lt_or_ge shared.cursor starts.length with hlt | hge
    · obtain ⟨rest, hrest⟩ : ∃ rest, starts.length - shared.cursor = rest + 1 :=
        ⟨starts.length - shared.cursor - 1, by omega⟩
      have hmul : (rest + 1) * (3 + 2 * input.length) =
          rest * (3 + 2 * input.length) + (3 + 2 * input.length) := Nat.succ_mul ..
      rw [show starts.length - (shared.cursor + 1) = rest by omega, hrest, hmul]
      generalize rest * (3 + 2 * input.length) = more
      omega
    · rw [show starts.length - (shared.cursor + 1) = starts.length - shared.cursor by omega]
      have := hnone hge
      omega
  | reading parser stop acc =>
    cases hmove
    obtain ⟨k, m, -, -, hat⟩ := h
    exact Nat.add_lt_add_left (read_rank c hc hat stop acc) _
  | holding parser stop acc r =>
    cases hmove
    exact Nat.add_lt_add_left (take_rank input c parser stop acc r _) _
  | fencing acc offset error =>
    cases hmove
    exact Nat.lt_succ_self _
  | returned acc failure => cases hmove
  | aborted fault => cases hmove

/-- **Every step brings a run nearer to its end.** -/
theorem ranked (hstarts : starts.Pairwise (· < ·)) :
    Schedule.Ranked (System.step cfg F input c (starts.map (after cfg.dialect input start)))
      (Inv cfg F input start c starts) (Pool.measure (left input starts.length) (rank input)) where
  keeps := keeps_inv hc hstarts
  nearer _ _ _ h hstep :=
    Pool.step_measure (fun w _ _ hw hmove => step_rank hc (h.sound w hw) hmove) hstep

omit hc in
variable (cfg F input c) in
/-- While a thread has not ended, it can take a step. -/
theorem step_of_unfinished (chunks : List Boundary) (h : ¬ ∃ o, s.outcome = some o) :
    ∃ a s', System.step cfg F input c chunks s a = some s' := by
  have hall : ¬ s.workers.all Worker.finished = true := fun hall => by
    refine h (Option.ne_none_iff_exists'.mp ?_)
    unfold System.outcome
    rw [if_pos hall]
    split
    · exact nofun
    · split <;> exact nofun
  rw [List.all_eq_true] at hall
  push Not at hall
  obtain ⟨w, hmem, hw⟩ := hall
  refine Pool.exists_step hmem 0 ?_
  cases w with
  | returned acc failure => exact absurd rfl hw
  | aborted fault => exact absurd rfl hw
  | claiming parser acc => exact nofun
  | reading parser stop acc => exact nofun
  | holding parser stop acc r => exact nofun
  | fencing acc offset error => exact nofun

/-! ## The threads of a call -/

omit hc in
variable (F start c starts) in
theorem spawn_inv (hheaders : cfg.headers ≠ .firstRecord)
    (hbuild : SliceParser.build cfg input = .ok (fromConfig cfg input)) (n : ℕ) :
    Inv cfg F input start c starts (System.spawn cfg input c n) := by
  have hspawn : Worker.spawn cfg input c = .claiming (fromConfig cfg input) c.init := by
    unfold Worker.spawn
    rw [hbuild]
  constructor
  · intro w hw
    obtain ⟨-, rfl⟩ := List.mem_replicate.mp hw
    rw [hspawn]
    exact ready_fromConfig input hheaders
  · exact fun _ hv => absurd hv List.not_mem_nil
  · exact fun _ _ _ hk => absurd hk (Nat.not_lt_zero _)

/-- **The threads fail as the serial run does.** -/
theorem threads_like (hstarts : starts.Pairwise (· < ·)) (hhead : starts.head? = some 0)
    (hbuild : SliceParser.build cfg input = .ok (fromConfig cfg input))
    (hties : Untied cfg F input start c starts) {n : ℕ} (hn : 0 < n) {schedule : List Action}
    {o : Outcome T E} (hrun : System.run cfg F input c (starts.map (after cfg.dialect input start))
      schedule (System.spawn cfg input c n) = some s) (ho : s.outcome = some o) :
    o.Like (SliceParser.foldAll cfg F input c start) := by
  have hinv := (keeps_inv hc hstarts).run (spawn_inv F start c starts hc.headers hbuild n) hrun
  have hworkers : s.workers ≠ [] := by
    have hlen := Pool.run_workers hrun
    unfold System.spawn at hlen
    rw [List.length_replicate] at hlen
    exact List.ne_nil_of_length_pos (hlen ▸ hn)
  obtain ⟨hfirst, hnone⟩ := outcome_failure hc hties hstarts hhead hinv hworkers ho
  obtain ⟨hfirst', hnone'⟩ := foldAll_first (c := c) hc hbuild
  obtain ⟨M, f, hM⟩ | hpass := first_or_none cfg F input start c
  · rw [hfirst M f hM, hfirst' M f hM]
    exact .failed f.2
  · obtain ⟨accs, rfl⟩ := hnone hpass
    obtain ⟨acc, hserial⟩ := hnone' hpass
    rw [hserial]
    exact .done accs [acc]

omit hc in
variable (cfg input start c) in
/-- The thread of a run that begins behind the document. -/
inductive Beyond : System T E → Prop
  | claiming (barrier : List ℕ) :
    Beyond ⟨⟨0, barrier⟩, [.claiming (fromConfig cfg input) c.init]⟩
  | fencing (shared : Shared) :
    Beyond ⟨shared, [.fencing c.init start.byte
      (c.ofConfiguration "CSV seek positions must lie within the input")]⟩
  | returned (shared : Shared) :
    Beyond ⟨shared, [.returned c.init (some (start.byte,
      c.ofConfiguration "CSV seek positions must lie within the input"))]⟩

omit hc in
/-- Its one thread fails with its only chunk. -/
theorem Beyond.ranked (hbeyond : input.length < start.byte) :
    Schedule.Ranked (System.step cfg F input c [start]) (Beyond cfg input start c)
      (Pool.measure (left input 1) (rank input)) := by
  have hclaim : Worker.claim cfg input c [start] 0 (fromConfig cfg input) c.init =
      .fencing c.init start.byte
        (c.ofConfiguration "CSV seek positions must lie within the input") := by
    unfold Worker.claim SliceParser.seek
    simp only [List.getElem?_cons_zero, if_pos hbeyond]
    rfl
  have hstep : ∀ {s s' : System T E} {a : Action}, Beyond cfg input start c s →
      System.step cfg F input c [start] s a = some s' → Beyond cfg input start c s' ∧
        Pool.measure (left input 1) (rank input) s' < Pool.measure (left input 1) (rank input) s := by
    rintro s s' ⟨_ | i, seen⟩ h hstep
    · cases h with
      | claiming barrier =>
        obtain rfl := Option.some.inj hstep
        simp only [hclaim]
        refine ⟨.fencing _, ?_⟩
        simp only [Pool.measure, left, rank, Shared.claim, List.set_cons_zero, List.map_cons,
          List.map_nil, List.sum_singleton]
        omega
      | fencing shared =>
        obtain rfl := Option.some.inj hstep
        exact ⟨.returned _, Nat.lt_succ_self _⟩
      | returned shared => cases hstep
    · cases h <;> cases hstep
  exact ⟨fun _ _ _ h hs => (hstep h hs).1, fun _ _ _ h hs => (hstep h hs).2⟩

end Unordered

namespace ParallelParser

open Unordered

variable {T E : Type} (p : ParallelParser) (input : Bytes) (c : Closure T E)

/-- A call comes to its threads, with the settings and the first record that
    `prepare` finds. -/
structure Threaded (cfg : ParserSettings) (start : Boundary) : Prop where
  splittable : p.checkSplittable = none
  prepared : p.prepare input = .ok (cfg, start)
  parallel : p.usesSerialFallback input start = false

/-- What the failure of a call depends on. -/
structure Separate : Prop where
  /-- every record ends where counting quotes says -/
  counted : ∀ {cfg : ParserSettings} {start : Boundary}, p.Threaded input cfg start →
    ∀ m, recordStart cfg.dialect input start.byte m < input.length → Counted cfg p.F input start m
  /-- the record behind the first failure does not fail at the byte of that
      failure with another error, where it begins a chunk -/
  untied : ∀ {cfg : ParserSettings} {start : Boundary}, p.Threaded input cfg start →
    ∀ (M : ℕ) (f g : ℕ × E), First cfg p.F input start c M f →
      after cfg.dialect input start (M + 1) ∈ p.chunks input start →
      verdict cfg p.F input start c (M + 1) = some g → g.1 = f.1 → g = f

variable {p input c}

theorem parsePositionedRecord_lineBase {cfg : ParserSettings} {F : CsvFormat} {header : Bool}
    {e e' : Engine} {range : ℕ × ℕ × ℕ}
    (h : parsePositionedRecord cfg F input header e = .ok range e') : e'.lineBase = e.lineBase := by
  have hr := @parsePositionedRecord_replays cfg F input e e ⟨rfl, rfl⟩ header rfl (fun _ => rfl)
    (Or.inr rfl)
  rw [h] at hr
  obtain ⟨-, -, hbase, -⟩ := hr.2.kept
  exact hbase

theorem nextPhysicalRecord_lineBase {cfg : ParserSettings} (hskips : cfg.skipsRecords = false)
    {header : Bool} {record : Option Record} {e e' : Engine}
    (h : nextPhysicalRecord cfg input header e = .ok record e') : e'.lineBase = e.lineBase := by
  unfold nextPhysicalRecord at h
  obtain ⟨range, e₁, hfill, hrest⟩ := ok_of_bind h
  have hkept : e₁.lineBase = e.lineBase := by
    unfold fillRecordSpans at hfill
    obtain ⟨_, e₂, hcheck, hfill⟩ := ok_of_bind hfill
    have he₂ : e₂ = e := by
      unfold checkFailed at hcheck
      split_ifs at hcheck
      · cases hcheck
      · cases hcheck; rfl
    rw [modify_bind, get_bind, he₂] at hfill
    simp only [hskips, Bool.false_eq_true, if_false] at hfill
    split_ifs at hfill with hend
    · cases hfill; rfl
    · rcases hparse : parsePositionedRecord cfg none input header e with ⟨found, e₃⟩ | ⟨fault, e₃⟩
      · rw [map_ok hparse] at hfill
        cases hfill
        exact parsePositionedRecord_lineBase hparse
      · rw [map_error hparse] at hfill
        cases hfill
  cases range with
  | none => cases hrest; exact hkept
  | some range => cases hrest; exact hkept

/-- The headers of a document are settled without counting lines. -/
theorem headers_lineBase {cfg : ParserSettings} (hskips : cfg.skipsRecords = false)
    {headers : Option (List Bytes)} {e e' : Engine}
    (h : SliceParser.headers cfg input e = .ok headers e')
    (he : cfg.headers ≠ .firstRecord → e.headersInitialized = true) :
    e'.lineBase = e.lineBase := by
  have hensure : cfg.headers ≠ .firstRecord → ensureHeaders cfg input e = .ok () e := by
    intro hne
    unfold ensureHeaders
    rw [get_bind, if_pos (he hne)]
    rfl
  unfold SliceParser.headers at h
  rcases hheaders : cfg.headers with _ | _ | record <;> rw [hheaders] at h hensure
  · obtain ⟨_, e₁, hrun, hrest⟩ := ok_of_bind h
    rw [hensure nofun] at hrun
    cases hrun
    cases hrest
    rfl
  · obtain ⟨_, e₀, hmodify, hread⟩ := ok_of_bind h
    have hkept : e₀.lineBase = e.lineBase := by cases hmodify; rfl
    obtain ⟨record, e₁, hread, hrest⟩ := ok_of_bind hread
    cases hrest
    exact (nextPhysicalRecord_lineBase hskips hread).trans hkept
  · obtain ⟨_, e₁, hrun, hrest⟩ := ok_of_bind h
    rw [hensure nofun] at hrun
    cases hrun
    cases hrest
    rfl

/-- What a call settles before its threads start. -/
theorem Threaded.settled {cfg : ParserSettings} {start : Boundary}
    (h : p.Threaded input cfg start) :
    cfg.dialect = p.cfg.dialect ∧ cfg.headers ≠ .firstRecord ∧ cfg.fieldCount ≠ .matchFirst ∧
      cfg.skipsRecords = false ∧ 1 ≤ start.line ∧
      SliceParser.build cfg input = .ok (fromConfig cfg input) := by
  have hskips : p.cfg.skipsRecords = false := by
    have hsplit := h.splittable
    unfold checkSplittable at hsplit
    unfold ParserSettings.skipsRecords
    simp only at hsplit
    split_ifs at hsplit with hcomment _ _ _ _ hblank
    simp [hcomment, hblank]
  have hprepared := h.prepared
  unfold prepare at hprepared
  rcases hbuild : SliceParser.build p.cfg input with fault | probe <;> rw [hbuild] at hprepared
  · cases hprepared
  have hprobe : probe = fromConfig p.cfg input ∧
      ¬ (p.cfg.readBom = .reject ∧ bom.isPrefixOf input = true) := by
    unfold SliceParser.build at hbuild
    split_ifs at hbuild with hbom
    exact ⟨(Except.ok.inj hbuild).symm, hbom⟩
  simp only at hprepared
  rcases hheaders : SliceParser.headers p.cfg input probe with ⟨headers, e⟩ | ⟨fault, e⟩ <;>
    rw [hheaders] at hprepared
  · simp only at hprepared
    rcases hsettle : p.settleFieldCount input e with fault | fieldCount <;>
      rw [hsettle] at hprepared
    · cases hprepared
    cases hprepared
    have hbase : e.lineBase = 1 := by
      refine (headers_lineBase hskips hheaders fun hne => ?_).trans ?_
      · rw [hprobe.1]
        exact (ready_fromConfig input hne).headers
      · rw [hprobe.1]; rfl
    refine ⟨rfl, ?_, ?_, hskips, ?_, ?_⟩
    · cases headers <;> exact nofun
    · unfold settleFieldCount at hsettle
      by_cases hmatch : p.cfg.fieldCount = .matchFirst
      · rw [if_pos hmatch] at hsettle
        split at hsettle <;> cases hsettle <;> exact nofun
      · rw [if_neg hmatch] at hsettle
        cases hsettle
        exact hmatch
    · unfold SliceParser.location physicalLine
      simp only [hbase]
      omega
    · unfold SliceParser.build
      rw [if_neg hprobe.2]
  · cases hprepared

/-- **The threads of a call** fail as the serial run does, whatever their
    schedule; they all end. -/
theorem Threaded.like {cfg : ParserSettings} {start : Boundary} (h : p.Threaded input cfg start)
    (hsep : p.Separate input c) :
    (∃ n, ∀ (schedule : List Action) (s : System T E),
      System.run cfg p.F input c (p.chunks input start) schedule
        (System.spawn cfg input c (p.activeWorkers input start)) = some s → schedule.length ≤ n) ∧
    (∃ schedule s o, System.run cfg p.F input c (p.chunks input start) schedule
        (System.spawn cfg input c (p.activeWorkers input start)) = some s ∧ s.outcome = some o) ∧
    ∀ (schedule : List Action) (s : System T E) (o : Outcome T E),
      System.run cfg p.F input c (p.chunks input start) schedule
        (System.spawn cfg input c (p.activeWorkers input start)) = some s → s.outcome = some o →
      o.Like (SliceParser.foldAll cfg p.F input c start) := by
  obtain ⟨hdialect, hheaders, hfields, hskips, hline, hbuild⟩ := h.settled
  by_cases hstart : start.byte ≤ input.length
  · have hc : Countable cfg p.F input start :=
      ⟨hheaders, hfields, hskips, hstart, hline, hsep.counted h⟩
    obtain ⟨ns, hchunks, hsorted, -⟩ :=
      boundaries_spec cfg.dialect hstart (p.threads * chunksPerThread)
    have hchunks' : p.chunks input start = (0 :: ns).map (after cfg.dialect input start) := by
      unfold chunks
      rw [← hdialect, hchunks]
    have hworkers : 0 < p.activeWorkers input start := by
      unfold activeWorkers
      rw [hchunks', List.length_take]
      exact Nat.lt_min.mpr ⟨p.threads_pos, by simp⟩
    have hties : Untied cfg p.F input start c (0 :: ns) := by
      intro M f g hM hmem
      refine hsep.untied h M f g hM ?_
      rw [hchunks']
      exact List.mem_map_of_mem hmem
    have hinv := spawn_inv p.F start c (0 :: ns) hheaders hbuild
      (p.activeWorkers input start)
    rw [hchunks']
    have hranked : Schedule.Ranked (System.step cfg p.F input c
        ((0 :: ns).map (after cfg.dialect input start))) _ _ := ranked (c := c) hc hsorted
    refine ⟨⟨_, fun schedule s hrun => Nat.le_of_add_right_le (hranked.run_length hinv hrun)⟩, ?_,
      fun schedule s o hrun ho => ?_⟩
    · obtain ⟨schedule, s, hrun, o, ho⟩ := hranked.exists_end
        (fun s _ hs => step_of_unfinished cfg p.F input c _ hs) hinv
      exact ⟨schedule, s, o, hrun, ho⟩
    · exact threads_like hc hsorted rfl hbuild hties hworkers hrun ho
  · have hbeyond := Nat.lt_of_not_le hstart
    have hchunks : p.chunks input start = [start] := by
      unfold chunks boundaries
      rw [if_pos hbeyond]
    have hworkers : p.activeWorkers input start = 1 := by
      unfold activeWorkers
      rw [hchunks, List.length_take]
      have := p.threads_pos
      simp only [List.length_singleton]
      omega
    have hspawn : Beyond cfg input start c (System.spawn cfg input c 1) := by
      have hworker : Worker.spawn cfg input c = .claiming (fromConfig cfg input) c.init := by
        unfold Worker.spawn
        rw [hbuild]
      unfold System.spawn
      rw [hworker]
      exact .claiming []
    have hserial : SliceParser.foldAll cfg p.F input c start =
        .failed (c.ofConfiguration "CSV seek positions must lie within the input") := by
      unfold SliceParser.foldAll
      rw [hbuild]
      unfold SliceParser.seek
      simp only [if_pos hbeyond]
      rfl
    rw [hchunks, hworkers, hserial]
    have hranked : Schedule.Ranked (System.step cfg p.F input c [start]) (Beyond cfg input start c) _ :=
      Beyond.ranked hbeyond
    refine ⟨⟨_, fun schedule s hrun => Nat.le_of_add_right_le (hranked.run_length hspawn hrun)⟩, ?_,
      fun schedule s o hrun ho => ?_⟩
    · obtain ⟨schedule, s, hrun, o, ho⟩ := hranked.exists_end
        (fun s _ hs => step_of_unfinished cfg p.F input c _ hs) hspawn
      exact ⟨schedule, s, o, hrun, ho⟩
    · cases hranked.keeps.run hspawn hrun with
      | claiming barrier => cases ho
      | fencing shared => cases ho
      | returned shared =>
        obtain rfl := Option.some.inj ho
        exact .failed _

/-- **An unordered failure is the serial one**: every call ends, whatever its
    schedule, and fails as the serial run of the closure does. -/
theorem failure_serial (p : ParallelParser) (input : Bytes) (c : Closure T E)
    (h : p.Separate input c) :
    (∃ o, p.Returns input c o) ∧ (∀ o, p.Returns input c o → o.Like (p.serial input c)) ∧
      ∀ cfg start, p.Threaded input cfg start →
        ∃ n, ∀ (schedule : List Action) (s : System T E),
          System.run cfg p.F input c (p.chunks input start) schedule
            (System.spawn cfg input c (p.activeWorkers input start)) = some s →
          schedule.length ≤ n := by
  refine ⟨?_, ?_, fun cfg start hthreaded => (hthreaded.like h).1⟩
  · rcases hs : p.checkSplittable with _ | detail
    · rcases hp : p.prepare input with fault | ⟨cfg, start⟩
      · exact ⟨_, .unprepared hs hp⟩
      · rcases hfallback : p.usesSerialFallback input start with _ | _
        · obtain ⟨-, ⟨schedule, s, o, hrun, ho⟩, -⟩ := Threaded.like ⟨hs, hp, hfallback⟩ h
          exact ⟨o, .threads hs hp hfallback hrun ho⟩
        · exact ⟨_, .serial hs hp hfallback⟩
    · exact ⟨_, .unsplittable hs⟩
  · intro o hreturns
    have hrefl : ∀ o : Outcome T E, o.Like o := by
      intro o
      cases o with
      | done accs => exact .done accs accs
      | failed error => exact .failed error
      | aborted fault => exact .aborted fault
    unfold serial
    cases hreturns with
    | unsplittable hs => rw [hs]; exact hrefl _
    | unprepared hs hp => rw [hs, hp]; exact hrefl _
    | serial hs hp _ => rw [hs, hp]; exact hrefl _
    | threads hs hp hfallback hrun ho =>
      rw [hs, hp]
      exact (Threaded.like ⟨hs, hp, hfallback⟩ h).2.2 _ _ _ hrun ho

/-- Comma-separated values of one field a record. -/
def narrow : ParserSettings where
  toFormatOptions := .custom { dialect := .csv }
  limits := .default
  fieldCount := .exact 1
  headers := .none
  host := ⟨true, true, true⟩

theorem narrow_valid : narrow.toFormatSettings.Valid := by decide

def pair : ParallelParser where
  cfg := narrow
  F := none
  valid := narrow_valid
  follows := fun _ h => by cases h
  threads := 2
  threads_pos := by decide
  threshold := 0
/-- The document of three records of which the second has two fields. -/
def uneven : Bytes := [97, 10, 98, 44, 99, 10, 100, 10]

/-- A closure that refuses the record at one byte. -/
def refusing (byte : ℕ) : Closure Unit (Option ErrorKind) where
  init := ()
  refuses record := if record.start = byte then some none else none
  fold _ _ := ()
  ofError kind _ := some kind
  ofConfiguration _ := none

theorem pair_prepare : pair.prepare uneven = .ok (narrow, ⟨0, 1, 0⟩) := by rfl

theorem uneven_counted (m : ℕ) (hm : recordStart Dialect.csv uneven 0 m < uneven.length) :
    Counted narrow none uneven ⟨0, 1, 0⟩ m := by
  rcases Nat.lt_or_ge m 3 with hlt | hge
  · have hall : ∀ m < 3, Counted narrow none uneven ⟨0, 1, 0⟩ m := by decide +kernel
    exact hall m hlt
  · have hthree : recordStart Dialect.csv uneven 0 3 = uneven.length := by decide
    have hle : recordStart Dialect.csv uneven 0 3 ≤ recordStart Dialect.csv uneven 0 m :=
      recordStart_mono (Nat.zero_le _) hge
    omega

theorem uneven_first : verdict narrow none uneven ⟨0, 1, 0⟩ (refusing 0) 0 = some (0, none) := by
  decide

theorem pair_threaded {cfg : ParserSettings} {start : Boundary}
    (h : pair.Threaded uneven cfg start) : cfg = narrow ∧ start = ⟨0, 1, 0⟩ := by
  have hprepared := pair_prepare.symm.trans h.prepared
  exact ⟨(congrArg Prod.fst (Except.ok.inj hprepared)).symm,
    (congrArg Prod.snd (Except.ok.inj hprepared)).symm⟩

/-- The refusal of the first record is returned. -/
theorem failure_serial_refused :
    ∃ o, pair.Returns uneven (refusing 0) o ∧ o.Like (.failed none) := by
  have hsep : pair.Separate uneven (refusing 0) := by
    constructor
    · intro cfg start h m hm
      obtain ⟨rfl, rfl⟩ := pair_threaded h
      exact uneven_counted m hm
    · intro cfg start h M f g hM hchunk hg htie
      obtain ⟨rfl, rfl⟩ := pair_threaded h
      obtain rfl : M = 0 := by
        by_contra hne
        have hpass := hM.first 0 (Nat.pos_of_ne_zero hne)
        have hfirst := uneven_first.symm.trans hpass
        cases hfirst
      have hf : f = (0, none) := Option.some.inj (hM.fails.symm.trans uneven_first)
      have hone : verdict narrow none uneven ⟨0, 1, 0⟩ (refusing 0) 1 =
          some (6, some (.fieldCountMismatch 1 2)) := by
        decide
      have hg' : g = (6, some (.fieldCountMismatch 1 2)) := Option.some.inj (hg.symm.trans hone)
      rw [hf, hg'] at htie
      cases htie
  have hserial : pair.serial uneven (refusing 0) = .failed none := by decide +kernel
  obtain ⟨⟨o, ho⟩, hlike, -⟩ := failure_serial pair uneven (refusing 0) hsep
  exact ⟨o, ho, hserial ▸ hlike o ho⟩


/-- The width error of the second record and the refusal of the third belong to
    one byte: the thread that was spawned first decides. -/
theorem failure_serial_tie :
    ¬ ∀ (T E : Type) (p : ParallelParser) (input : Bytes) (c : Closure T E) (o : Outcome T E),
      p.Returns input c o → o.Like (p.serial input c) := by
  intro h
  have hrun : ((System.run narrow none uneven (refusing 6) (pair.chunks uneven ⟨0, 1, 0⟩)
      ([1, 1, 1, 1, 1, 0, 0, 0, 0, 1].map fun i => ⟨i, 0⟩)
      (System.spawn narrow uneven (refusing 6) (pair.activeWorkers uneven ⟨0, 1, 0⟩))).bind
        System.outcome) = some (.failed none) := by
    decide +kernel
  obtain ⟨s, hs, ho⟩ := Option.bind_eq_some_iff.mp hrun
  have hsplit : pair.checkSplittable = none := by decide
  have hparallel : pair.usesSerialFallback uneven ⟨0, 1, 0⟩ = false := by decide
  have hlike := h _ _ pair uneven (refusing 6) _ (.threads hsplit pair_prepare hparallel hs ho)
  have hserial : pair.serial uneven (refusing 6) = .failed (some (.fieldCountMismatch 1 2)) := by
    decide +kernel
  rw [hserial] at hlike
  cases hlike
end ParallelParser

end Coseva
