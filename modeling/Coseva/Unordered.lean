/-
  Coseva — the failure of an unordered run is the serial one.

  * `verdict`: the failure of the `m`-th record, which no history changes;
  * `Worker.Sound`, `Covers`: what a worker is about, and which worker has the
    first failure ahead of it;
  * `Inv`: the invariant of the threads, kept by every step;
  * `outcome_failure`: the failure that `drive` keeps.
-/
import Coseva.Parallel

namespace Coseva

open Split Engine

/-! ## Verdicts -/

/-- What a run relies on: every record ends where counting quotes says. -/
structure Countable (cfg : ParserSettings) (F : CsvFormat) (input : Bytes) (start : Boundary) :
    Prop where
  headers : cfg.headers ≠ .firstRecord
  fieldCount : cfg.fieldCount ≠ .matchFirst
  skips : cfg.skipsRecords = false
  start_le : start.byte ≤ input.length
  line : 1 ≤ start.line
  counted : ∀ m, recordStart cfg.dialect input start.byte m < input.length →
    Counted cfg F input start m

namespace Unordered

variable {T E : Type} (cfg : ParserSettings) (F : CsvFormat) (input : Bytes) (start : Boundary)
  (c : Closure T E)

/-- Where the `m`-th record begins. -/
abbrev place (m : ℕ) : ℕ := recordStart cfg.dialect input start.byte m

/-- The failure of the `m`-th record, if there is such a record and it fails. -/
def verdict (m : ℕ) : Option (ℕ × E) :=
  if place cfg input start m < input.length then c.failure (readAt cfg F input start m) else none

/-- The first failure of the document. -/
structure First (M : ℕ) (f : ℕ × E) : Prop where
  fails : verdict cfg F input start c M = some f
  first : ∀ n < M, verdict cfg F input start c n = none

/-! ## What a worker is about -/

/-- Up to the record `m` the chunk `k` has no failure; it ends at `stop`.
    The chunks begin at the records `starts`. -/
structure Chunk (starts : List ℕ) (k m stop : ℕ) : Prop where
  first : ∃ a, starts[k]? = some a ∧ a ≤ m ∧
    ∀ n, a ≤ n → n < m → verdict cfg F input start c n = none
  last : ∀ b, starts[k + 1]? = some b → m < b
  stop : stop = (starts[k + 1]?).elim input.length (place cfg input start)

/-- The first failure of a chunk that was claimed. -/
def Fails (starts : List ℕ) (cursor : ℕ) (f : ℕ × E) : Prop :=
  ∃ k m stop, k < cursor ∧ Chunk cfg F input start c starts k m stop ∧
    verdict cfg F input start c m = some f

/-- What is true of a worker once `cursor` chunks are claimed. -/
def Sound (starts : List ℕ) (cursor : ℕ) : Worker T E → Prop
  | .claiming parser _ => Ready cfg input parser
  | .reading parser stop _ => ∃ k m, k < cursor ∧ Chunk cfg F input start c starts k m stop ∧
    At cfg input start m parser
  | .holding parser stop _ r => ∃ k m, k < cursor ∧ Chunk cfg F input start c starts k m stop ∧
    place cfg input start m < input.length ∧ readAt cfg F input start m = .ok r ∧
    At cfg input start (m + 1) parser
  | .fencing _ offset error => Fails cfg F input start c starts cursor (offset, error)
  | .returned _ none => starts.length < cursor
  | .returned _ (some f) => Fails cfg F input start c starts cursor f
  | .aborted _ => False

/-- A worker that has the failure `f` of the record `M` ahead of it, or has met
    it. -/
def Covers (M : ℕ) (f : ℕ × E) : Worker T E → Prop
  | .reading parser stop _ => ∃ m ≤ M, place cfg input start M < stop ∧
    At cfg input start m parser
  | .holding parser stop _ r => ∃ m ≤ M, place cfg input start M < stop ∧
    place cfg input start m < input.length ∧ readAt cfg F input start m = .ok r ∧
    At cfg input start (m + 1) parser
  | .fencing _ offset error => (offset, error) = f
  | .returned _ (some g) => g = f
  | _ => False

variable {cfg F input start c} (hc : Countable cfg F input start)

include hc

theorem place_lt {m n : ℕ} (hmn : m < n) (hm : place cfg input start m < input.length) :
    place cfg input start m < place cfg input start n :=
  recordStart_lt hc.start_le hmn hm

theorem place_mono {m n : ℕ} (hmn : m ≤ n) : place cfg input start m ≤ place cfg input start n :=
  recordStart_mono hc.start_le hmn

/-- A parser that stands at a record moves to it and reads it. -/
theorem reads_at {m : ℕ} {e : Engine} (h : At cfg input start m e)
    (hm : place cfg input start m < input.length) :
    advance cfg F input e = .ok true e.positioned ∧
      ReadsAt cfg input start m (record cfg F input e.positioned) (readAt cfg F input start m) := by
  refine ⟨?_, record_at hc.headers hc.fieldCount hc.start_le hc.line h hm (hc.counted m hm)⟩
  rw [advance_between hc.skips h.toBetween, if_neg]
  rw [h.location]
  exact Nat.ne_of_lt hm

/-- At the end of the document nothing is read. -/
theorem ends_at {m : ℕ} {e : Engine} (h : At cfg input start m e)
    (hm : ¬ place cfg input start m < input.length) :
    advance cfg F input e = .ok false { e with cursorStart := none } := by
  have hle : place cfg input start m ≤ input.length := recordStart_le hc.start_le m
  rw [advance_between hc.skips h.toBetween, if_pos]
  rw [h.location]
  exact Nat.le_antisymm hle (Nat.le_of_not_lt hm)

/-- A record that is read begins at its place and ends at the next. -/
theorem read_range {m : ℕ} {r : Record} (hm : place cfg input start m < input.length)
    (hr : readAt cfg F input start m = .ok r) :
    r.start = place cfg input start m ∧ r.stop = place cfg input start (m + 1) := by
  have h₀ := seekTo_at (ready_fromConfig input hc.headers) hc.start_le
    hc.line m
  have hread := (reads_at hc h₀ hm).2
  have hcounted := hc.counted m hm
  unfold Counted at hcounted
  rw [hr] at hread hcounted
  obtain ⟨_, -, -, hstart⟩ := hread
  exact ⟨hstart, hcounted⟩

/-- A failure belongs to a byte of its record, or to the byte behind it. -/
theorem verdict_bounds {m : ℕ} {f : ℕ × E} (h : verdict cfg F input start c m = some f) :
    place cfg input start m < input.length ∧ place cfg input start m ≤ f.1 ∧
      f.1 ≤ place cfg input start (m + 1) := by
  unfold verdict at h
  split_ifs at h with hm
  refine ⟨hm, ?_⟩
  have hcounted := hc.counted m hm
  unfold Counted at hcounted
  rcases hr : readAt cfg F input start m with fault | r
  · rw [hr] at h hcounted
    cases fault with
    | error kind location => cases h; exact hcounted
    | panic => exact hcounted.elim
    | stuck => exact hcounted.elim
  · obtain ⟨hstart, -⟩ := read_range hc hm hr
    rw [hr] at h
    obtain ⟨e, -, rfl⟩ := Option.map_eq_some_iff.mp h
    exact ⟨Nat.le_of_eq hstart.symm, hstart ▸ place_mono hc (Nat.le_succ m)⟩

/-! ## Steps of a worker -/

variable {starts : List ℕ} {cursor : ℕ}

omit hc in
theorem Sound.mono {w : Worker T E} (h : Sound cfg F input start c starts cursor w) {cursor' : ℕ}
    (hle : cursor ≤ cursor') : Sound cfg F input start c starts cursor' w := by
  have hfails : ∀ {f}, Fails cfg F input start c starts cursor f →
      Fails cfg F input start c starts cursor' f := by
    rintro f ⟨k, m, stop, hk, hrest⟩
    exact ⟨k, m, stop, Nat.lt_of_lt_of_le hk hle, hrest⟩
  match w, h with
  | .claiming .., h => exact h
  | .reading .., ⟨k, m, hk, hrest⟩ => exact ⟨k, m, Nat.lt_of_lt_of_le hk hle, hrest⟩
  | .holding .., ⟨k, m, hk, hrest⟩ => exact ⟨k, m, Nat.lt_of_lt_of_le hk hle, hrest⟩
  | .fencing .., h => exact hfails h
  | .returned _ none, h => exact Nat.lt_of_lt_of_le h hle
  | .returned _ (some _), h => exact hfails h

omit hc in
theorem starts_lt (hstarts : starts.Pairwise (· < ·)) {i j a b : ℕ} (hij : i < j)
    (ha : starts[i]? = some a) (hb : starts[j]? = some b) : a < b := by
  obtain ⟨hi, rfl⟩ := List.getElem?_eq_some_iff.mp ha
  obtain ⟨hj, rfl⟩ := List.getElem?_eq_some_iff.mp hb
  exact List.pairwise_iff_getElem.mp hstarts i j hi hj hij

/-- A claim opens the chunk, or finds none left. -/
theorem claim_sound (hstarts : starts.Pairwise (· < ·)) {parser : Engine} (hready : Ready cfg input parser) (acc : T) :
    Sound cfg F input start c starts (cursor + 1)
      (Worker.claim cfg input c (starts.map (after cfg.dialect input start)) cursor parser acc) := by
  unfold Worker.claim
  rw [List.getElem?_map, List.getElem?_map]
  rcases hk : starts[cursor]? with _ | a
  · exact Nat.lt_succ_of_le (List.getElem?_eq_none_iff.mp hk)
  obtain ⟨e, hseek, hat⟩ := seek_at hready hc.start_le hc.line a
  simp only [Option.map_some, hseek]
  refine ⟨cursor, a, Nat.lt_succ_self _, ⟨⟨a, hk, Nat.le_refl _, fun n h1 h2 => ?_⟩,
    fun b hb => starts_lt hstarts (Nat.lt_succ_self _) hk hb, ?_⟩, hat⟩
  · exact absurd h1 (Nat.not_le_of_lt h2)
  · rcases starts[cursor + 1]? with _ | b <;> rfl

theorem claim_covers {M a : ℕ} {f : ℕ × E} (hM : First cfg F input start c M f)
    (hk : starts[cursor]? = some a) (ha : a ≤ M) (hlast : ∀ b, starts[cursor + 1]? = some b → M < b)
    {parser : Engine} (hready : Ready cfg input parser) (acc : T) :
    Covers cfg F input start M f
      (Worker.claim cfg input c (starts.map (after cfg.dialect input start)) cursor parser acc) := by
  have hlt := (verdict_bounds hc hM.fails).1
  unfold Worker.claim
  rw [List.getElem?_map, List.getElem?_map, hk]
  obtain ⟨e, hseek, hat⟩ := seek_at hready hc.start_le hc.line a
  simp only [Option.map_some, hseek]
  refine ⟨a, ha, ?_, hat⟩
  rcases hb : starts[cursor + 1]? with _ | b
  · exact hlt
  · exact place_lt hc (hlast b hb) hlt

/-- A read holds the record, fails with it or ends the document. -/
theorem read_sound {k m stop : ℕ} {parser : Engine} (hk : k < cursor)
    (hchunk : Chunk cfg F input start c starts k m stop) (hat : At cfg input start m parser)
    (acc : T) :
    Sound cfg F input start c starts cursor (Worker.read cfg F input c parser stop acc) := by
  unfold Worker.read
  by_cases hm : place cfg input start m < input.length
  · obtain ⟨hadvance, hread⟩ := reads_at hc hat hm
    rw [hadvance]
    simp only
    rcases hr : readAt cfg F input start m with fault | r
    · have hcounted := hc.counted m hm
      unfold Counted at hcounted
      rw [hr] at hread hcounted
      obtain ⟨e, he⟩ := hread
      rw [he]
      cases fault with
      | error kind location =>
        refine ⟨k, m, stop, hk, hchunk, ?_⟩
        unfold verdict
        rw [if_pos hm, hr]; rfl
      | panic => exact hcounted.elim
      | stuck => exact hcounted.elim
    · rw [hr] at hread
      obtain ⟨e, he, hat', -⟩ := hread
      rw [he]
      exact ⟨k, m, hk, hchunk, hm, hr, hat'⟩
  · rw [ends_at hc hat hm]
    exact ⟨hat.headers, hat.ownedParser, hat.spans⟩

theorem read_covers {M m stop : ℕ} {f : ℕ × E} (hM : First cfg F input start c M f) (hm : m ≤ M)
    (hstop : place cfg input start M < stop) {parser : Engine} (hat : At cfg input start m parser)
    (acc : T) :
    Covers cfg F input start M f (Worker.read cfg F input c parser stop acc) := by
  have hlt : place cfg input start m < input.length :=
    Nat.lt_of_le_of_lt (place_mono hc hm) (verdict_bounds hc hM.fails).1
  obtain ⟨hadvance, hread⟩ := reads_at hc hat hlt
  unfold Worker.read
  rw [hadvance]
  simp only
  rcases hr : readAt cfg F input start m with fault | r
  · have hcounted := hc.counted m hlt
    unfold Counted at hcounted
    rw [hr] at hread hcounted
    obtain ⟨e, he⟩ := hread
    rw [he]
    cases fault with
    | error kind location =>
      have hfails : verdict cfg F input start c m = some (location.byte, c.ofError kind location) := by
        unfold verdict
        rw [if_pos hlt, hr]; rfl
      -- only the first failure fails up to it
      rcases Nat.lt_or_eq_of_le hm with hlt' | rfl
      · rw [hM.first m hlt'] at hfails; cases hfails
      · rw [hM.fails] at hfails
        exact (Option.some.inj hfails).symm
    | panic => exact hcounted.elim
    | stuck => exact hcounted.elim
  · rw [hr] at hread
    obtain ⟨e, he, hat', -⟩ := hread
    rw [he]
    exact ⟨m, hm, hstop, hlt, hr, hat'⟩

omit hc in
/-- What the closure makes of a record is the verdict on it. -/
theorem verdict_read {m : ℕ} {r : Record} (hm : place cfg input start m < input.length)
    (hr : readAt cfg F input start m = .ok r) :
    verdict cfg F input start c m = (c.refuses r).map (r.start, ·) := by
  unfold verdict
  rw [if_pos hm, hr]; rfl

/-- A record that is taken opens the next, unless the chunk is at its end. -/
theorem take_sound {k m stop : ℕ} {parser : Engine} {r : Record} (hk : k < cursor)
    (hchunk : Chunk cfg F input start c starts k m stop)
    (hm : place cfg input start m < input.length) (hr : readAt cfg F input start m = .ok r)
    (hat : At cfg input start (m + 1) parser) (acc : T) (barrier : Option ℕ) :
    Sound cfg F input start c starts cursor (Worker.take c parser stop acc r barrier) := by
  have hready : Ready cfg input parser := hat.ready
  have hverdict := verdict_read (c := c) hm hr
  unfold Worker.take
  by_cases hfenced : isFenced r.start barrier = true
  · rw [if_pos hfenced]
    exact hready
  rw [if_neg hfenced]
  rcases hrefuses : c.refuses r with _ | error
  · rw [hrefuses] at hverdict
    simp only
    by_cases hstop : r.stop ≥ stop
    · rw [if_pos hstop]
      exact hready
    rw [if_neg hstop]
    obtain ⟨a, ha, ham, hpass⟩ := hchunk.first
    refine ⟨k, m + 1, hk, ⟨⟨a, ha, Nat.le_succ_of_le ham, fun n h1 h2 => ?_⟩, fun b hb => ?_,
      hchunk.stop⟩, hat⟩
    · rcases Nat.lt_or_eq_of_le (Nat.le_of_lt_succ h2) with hlt | rfl
      · exact hpass n h1 hlt
      · exact hverdict
    · -- the next chunk begins behind the record
      have hbstop := hchunk.stop
      rw [hb] at hbstop
      rw [(read_range hc hm hr).2, hbstop] at hstop
      by_contra hle
      exact hstop (place_mono hc (Nat.le_of_not_lt hle))
  · rw [hrefuses] at hverdict
    exact ⟨k, m, stop, hk, hchunk, hverdict⟩

theorem take_covers {M m stop : ℕ} {f : ℕ × E} (hM : First cfg F input start c M f) (hmM : m ≤ M)
    (hstop : place cfg input start M < stop) {r : Record}
    (hm : place cfg input start m < input.length) (hr : readAt cfg F input start m = .ok r)
    {parser : Engine} (hat : At cfg input start (m + 1) parser) (acc : T) {barrier : Option ℕ}
    (hfree : isFenced r.start barrier = false) :
    Covers cfg F input start M f (Worker.take c parser stop acc r barrier) := by
  have hverdict := verdict_read (c := c) hm hr
  unfold Worker.take
  rw [if_neg (by simp [hfree])]
  rcases hrefuses : c.refuses r with _ | error
  · rw [hrefuses] at hverdict
    have hlt : m < M := by
      refine Nat.lt_of_le_of_ne hmM ?_
      rintro rfl
      rw [hM.fails] at hverdict
      cases hverdict
    have hnext := place_mono hc (Nat.succ_le_of_lt hlt)
    simp only
    rw [if_neg]
    · exact ⟨m + 1, hlt, hstop, hat⟩
    · rw [(read_range hc hm hr).2]
      exact Nat.not_le_of_lt (Nat.lt_of_le_of_lt hnext hstop)
  · rw [hrefuses] at hverdict
    rcases Nat.lt_or_eq_of_le hmM with hlt | rfl
    · rw [hM.first m hlt] at hverdict; cases hverdict
    · rw [hM.fails] at hverdict
      exact (Option.some.inj hverdict).symm

/-- Only its own failure fences the first record that fails, or one before it. -/
theorem first_of_fenced {M m n v : ℕ} {f : ℕ × E} {e : E} (hM : First cfg F input start c M f)
    (hm : m ≤ M) (hn : verdict cfg F input start c n = some (v, e))
    (hfenced : v ≤ place cfg input start m) : f = (v, e) := by
  obtain ⟨hlt, hlow, -⟩ := verdict_bounds hc hn
  obtain ⟨hMlt, -, -⟩ := verdict_bounds hc hM.fails
  have hle : M ≤ n := by
    by_contra hnM
    rw [hM.first n (Nat.lt_of_not_le hnM)] at hn
    cases hn
  have hmono := place_mono hc hm
  rcases Nat.lt_or_eq_of_le hle with hMn | rfl
  · have := place_lt hc hMn hMlt
    simp only at hlow
    exact absurd hfenced (Nat.not_le_of_lt (by omega))
  · rw [hM.fails] at hn
    exact Option.some.inj hn

/-! ## Steps of the system -/

omit hc in
variable (cfg F input start c starts) in
/-- What every step keeps. -/
structure Inv (s : System T E) : Prop where
  sound : ∀ w ∈ s.workers, Sound cfg F input start c starts s.shared.cursor w
  /-- the fence names a failure that a worker returned -/
  fence : ∀ v ∈ s.shared.barrier, ∃ w ∈ s.workers, ∃ acc e, w = .returned acc (some (v, e))
  /-- once its chunk is claimed, a worker has the first failure ahead of it -/
  covered : ∀ {M : ℕ} {f : ℕ × E}, First cfg F input start c M f → ∀ {k a : ℕ},
    k < s.shared.cursor → starts[k]? = some a → a ≤ M → (∀ b, starts[k + 1]? = some b → M < b) →
    ∃ w ∈ s.workers, Covers cfg F input start M f w

variable {s s' : System T E}

omit hc in
/-- One worker moves from `w` to `w'`. -/
theorem Inv.put (h : Inv cfg F input start c starts s) {i : ℕ} {w w' : Worker T E}
    (hi : s.workers[i]? = some w) (hlive : ∀ acc f, w ≠ .returned acc (some f))
    {shared : Shared} (hcursor : s.shared.cursor ≤ shared.cursor)
    (hsound : Sound cfg F input start c starts shared.cursor w')
    (hbarrier : ∀ v ∈ shared.barrier,
      v ∈ s.shared.barrier ∨ ∃ acc e, w' = .returned acc (some (v, e)))
    (hcovers : ∀ {M : ℕ} {f : ℕ × E}, First cfg F input start c M f →
      Covers cfg F input start M f w → Covers cfg F input start M f w' ∨
        ∃ v ∈ s.workers, v ≠ w ∧ Covers cfg F input start M f v)
    (hclaimed : ∀ {M : ℕ} {f : ℕ × E}, First cfg F input start c M f → ∀ {k a : ℕ},
      s.shared.cursor ≤ k → k < shared.cursor → starts[k]? = some a → a ≤ M →
      (∀ b, starts[k + 1]? = some b → M < b) → Covers cfg F input start M f w') :
    Inv cfg F input start c starts ⟨shared, s.workers.set i w'⟩ := by
  have hself := Pool.mem_set_self hi w'
  constructor
  · intro v hv
    rcases List.mem_or_eq_of_mem_set hv with hv | rfl
    · exact (h.sound v hv).mono hcursor
    · exact hsound
  · intro v hv
    rcases hbarrier v hv with hv | hw'
    · refine Pool.exists_mem_set hi (fun ⟨acc, e, hw⟩ => ?_) (h.fence v hv)
      exact absurd hw (hlive acc (v, e))
    · exact ⟨w', hself, hw'⟩
  · intro M f hM k a hk ha haM hlast
    rcases Nat.lt_or_ge k s.shared.cursor with hold | hnew
    · exact Pool.exists_mem_set hi (hcovers hM) (h.covered hM hold ha haM hlast)
    · exact ⟨w', hself, hclaimed hM hnew hk ha haM hlast⟩

omit hc in
/-- The fence takes the new failure or keeps one that it had. -/
theorem mem_fence {shared : Shared} {offset v : ℕ} (h : v ∈ (shared.fence offset).barrier) :
    v ∈ shared.barrier ∨ v = offset := by
  unfold Shared.fence at h
  rcases List.mem_append.mp h with h | h
  · exact Or.inl h
  rw [List.mem_singleton] at h
  rcases hlast : shared.barrier.getLast? with _ | last
  · rw [hlast] at h; exact Or.inr h
  · rw [hlast] at h
    rcases Nat.le_total last offset with hle | hle
    · rw [Option.elim_some, Nat.min_eq_left hle] at h
      exact Or.inl (h ▸ List.mem_of_getLast? hlast)
    · rw [Option.elim_some, Nat.min_eq_right hle] at h
      exact Or.inr h

/-- **Every step keeps the invariant.** -/
theorem keeps_inv (hstarts : starts.Pairwise (· < ·)) :
    Schedule.Keeps
      (System.step cfg F input c (starts.map (after cfg.dialect input start)))
      (Inv cfg F input start c starts) := by
  intro s s' a h hstep
  obtain ⟨w, shared, w', hw, hmove, rfl⟩ := Pool.step_cases hstep
  have hsound := h.sound w (List.mem_of_getElem? hw)
  cases w with
  | claiming parser acc =>
    cases hmove
    have hready : Ready cfg input parser := hsound
    refine h.put hw nofun (Nat.le_succ _) (claim_sound hc hstarts hready acc)
      (fun _ hv => Or.inl hv) (fun _ hcovers => hcovers.elim) ?_
    intro M f hM k a hlow hhigh ha haM hlast
    obtain rfl : k = s.shared.cursor := Nat.le_antisymm (Nat.le_of_lt_succ hhigh) hlow
    exact claim_covers hc hM ha haM hlast hready acc
  | reading parser stop acc =>
    cases hmove
    obtain ⟨k, m, hk, hchunk, hat⟩ := hsound
    refine h.put hw nofun (Nat.le_refl _) (read_sound hc hk hchunk hat acc)
      (fun _ hv => Or.inl hv) ?_ (fun _ _ _ h1 h2 => absurd h1 (Nat.not_le_of_lt h2))
    rintro M f hM ⟨m', hm', hstop, hat'⟩
    exact Or.inl (read_covers hc hM hm' hstop hat' acc)
  | holding parser stop acc r =>
    cases hmove
    obtain ⟨k, m, hk, hchunk, hm, hr, hat⟩ := hsound
    refine h.put hw nofun (Nat.le_refl _) (take_sound hc hk hchunk hm hr hat acc _)
      (fun _ hv => Or.inl hv) ?_ (fun _ _ _ h1 h2 => absurd h1 (Nat.not_le_of_lt h2))
    rintro M f hM ⟨m', hm', hstop, hlt, hr', hat'⟩
    rcases hfenced : isFenced r.start s.shared.barrier[a.seen]? with _ | _
    · exact Or.inl (take_covers hc hM hm' hstop hlt hr' hat' acc hfenced)
    · -- the fence is the first failure itself, which another worker has returned
      rcases hseen : s.shared.barrier[a.seen]? with _ | v
      · rw [hseen] at hfenced; cases hfenced
      rw [hseen] at hfenced
      obtain ⟨_, hj, acc', e, rfl⟩ := h.fence v (List.mem_of_getElem? hseen)
      obtain ⟨_, n, _, -, -, hn⟩ := h.sound _ hj
      have hv : v ≤ place cfg input start m' := by
        rw [← (read_range hc hlt hr').1]
        simpa [isFenced] using hfenced
      exact Or.inr ⟨_, hj, nofun, (first_of_fenced hc hM hm' hn hv).symm⟩
  | fencing acc offset error =>
    cases hmove
    have hfails : Fails cfg F input start c starts s.shared.cursor (offset, error) := hsound
    refine h.put hw nofun (Nat.le_refl _) hfails (fun v hv => ?_)
      (fun _ hcovers => Or.inl hcovers) (fun _ _ _ h1 h2 => absurd h1 (Nat.not_le_of_lt h2))
    rcases mem_fence hv with hv | rfl
    · exact Or.inl hv
    · exact Or.inr ⟨acc, error, rfl⟩
  | returned acc failure => cases hmove
  | aborted fault => cases hmove

/-! ## The failure that is kept -/

omit hc in
/-- The failure that a worker returned. -/
def failure? : Worker T E → Option (ℕ × E)
  | .returned _ failure => failure
  | _ => none

omit hc in
/-- `drive` keeps a failure of the lowest byte. -/
theorem foldl_keep (ws : List (Worker T E)) :
    ws.foldl System.keep none = (ws.map failure?).foldl (Pool.keepLeast Prod.fst) none := by
  have hkeep : System.keep = fun kept (w : Worker T E) =>
      Pool.keepLeast Prod.fst kept (failure? w) := by
    funext kept w
    rcases w with _ | _ | _ | _ | ⟨acc, _ | f⟩ | _ <;> rcases kept with _ | g <;> rfl
  rw [hkeep, List.foldl_map]

omit hc in
/-- Every record lies in a chunk. -/
theorem exists_chunk (M : ℕ) : ∀ (starts : List ℕ) (a : ℕ), starts.head? = some a → a ≤ M →
    ∃ k a', starts[k]? = some a' ∧ a' ≤ M ∧ ∀ b, starts[k + 1]? = some b → M < b
  | [], _, h, _ => by cases h
  | [a'], a, h, ha => ⟨0, a', rfl, Option.some.inj h ▸ ha, nofun⟩
  | a' :: b :: rest, a, h, ha => by
    rcases Nat.lt_or_ge M b with hb | hb
    · exact ⟨0, a', rfl, Option.some.inj h ▸ ha, fun b' hb' => Option.some.inj hb' ▸ hb⟩
    · obtain ⟨k, a'', hk, hle, hlast⟩ := exists_chunk M (b :: rest) b rfl hb
      exact ⟨k + 1, a'', hk, hle, hlast⟩

omit hc in
variable (cfg F input start c starts) in
/-- The record behind the first failure does not fail at the byte of that
    failure with another error, where it begins a chunk. -/
def Untied : Prop :=
  ∀ (M : ℕ) (f g : ℕ × E), First cfg F input start c M f → M + 1 ∈ starts →
    verdict cfg F input start c (M + 1) = some g → g.1 = f.1 → g = f

/-- A worker that fails has the first failure, or one behind it. -/
theorem fails_first (hties : Untied cfg F input start c starts) {M : ℕ} {f g : ℕ × E}
    (hM : First cfg F input start c M f) (hg : Fails cfg F input start c starts cursor g) :
    f.1 < g.1 ∨ g = f := by
  obtain ⟨k, m, stop, -, hchunk, hm⟩ := hg
  obtain ⟨hMlt, -, hhigh⟩ := verdict_bounds hc hM.fails
  obtain ⟨hmlt, hlow, -⟩ := verdict_bounds hc hm
  rcases Nat.lt_trichotomy m M with hlt | rfl | hgt
  · rw [hM.first m hlt] at hm; cases hm
  · rw [hM.fails] at hm
    exact Or.inr (Option.some.inj hm).symm
  · have hmono := place_mono hc (Nat.succ_le_of_lt hgt)
    rcases Nat.lt_or_ge f.1 g.1 with hlt | hge
    · exact Or.inl hlt
    -- both belong to the byte between two records
    have hsucc : m = M + 1 := by
      by_contra hne
      have hlt : place cfg input start (M + 1) < place cfg input start m :=
        place_lt hc (by omega) (Nat.lt_of_le_of_lt hmono hmlt)
      omega
    subst hsucc
    obtain ⟨a, ha, ham, hpass⟩ := hchunk.first
    have hstart : a = M + 1 := by
      by_contra hne
      have := hpass M (by omega) (Nat.lt_succ_self M)
      rw [hM.fails] at this
      cases this
    subst hstart
    exact Or.inr (hties M f g hM (List.mem_of_getElem? ha) hm (by omega))

/-- **The failure of a run**: where every thread has ended, `drive` returns the
    first failure of the document, if it has one. -/
theorem outcome_failure (hties : Untied cfg F input start c starts)
    (hstarts : starts.Pairwise (· < ·)) (hhead : starts.head? = some 0) (h : Inv cfg F input start c starts s)
    (hworkers : s.workers ≠ []) {o : Outcome T E} (ho : s.outcome = some o) :
    (∀ M f, First cfg F input start c M f → o = .failed f.2) ∧
      ((∀ m, verdict cfg F input start c m = none) → ∃ accs, o = .done accs) := by
  unfold System.outcome at ho
  split_ifs at ho with hall
  have hfinished : ∀ w ∈ s.workers, Worker.finished w = true := List.all_eq_true.mp hall
  have hnone : s.workers.findSome? Worker.fault? = none := by
    refine List.findSome?_eq_none_iff.mpr fun w hw => ?_
    cases w with
    | aborted fault => exact (h.sound _ hw).elim
    | _ => rfl
  rw [hnone] at ho
  simp only at ho
  have hfails : ∀ w ∈ s.workers, ∀ g, failure? w = some g →
      Fails cfg F input start c starts s.shared.cursor g := by
    intro w hw g hg
    cases w with
    | returned acc failure =>
      obtain rfl : failure = some g := hg
      exact h.sound _ hw
    | _ => cases hg
  have hkept := Pool.foldl_keepLeast Prod.fst (s.workers.map failure?) none
  rw [← foldl_keep] at hkept
  refine ⟨fun M f hM => ?_, fun hpass => ?_⟩
  · -- the chunk of the first failure has been claimed
    obtain ⟨k, a, hk, haM, hlast⟩ := exists_chunk M starts 0 hhead (Nat.zero_le M)
    have hclaimed : k < s.shared.cursor := by
      obtain ⟨w, ws, hws⟩ := List.exists_cons_of_ne_nil hworkers
      have hw : w ∈ s.workers := hws ▸ List.mem_cons_self
      have hfin := hfinished w hw
      have hsnd := h.sound w hw
      cases w with
      | returned acc failure =>
        cases failure with
        | none =>
          have hlen := (List.getElem?_eq_some_iff.mp hk).1
          exact Nat.lt_trans hlen hsnd
        | some g =>
          obtain ⟨k', m, stop, hk', hchunk, hm⟩ := hsnd
          by_contra hge
          have hmM : ¬ m < M := fun hlt => by
            rw [hM.first m hlt] at hm; cases hm
          -- a chunk before that of `M` ends before `M`
          obtain ⟨b, hb⟩ : ∃ b, starts[k' + 1]? = some b := by
            have hlen := (List.getElem?_eq_some_iff.mp hk).1
            exact ⟨_, List.getElem?_eq_getElem (by omega)⟩
          have hmb := hchunk.last b hb
          have hba : b ≤ a := by
            rcases Nat.lt_or_eq_of_le (show k' + 1 ≤ k by omega) with hlt | heq
            · exact Nat.le_of_lt (starts_lt hstarts hlt hb hk)
            · rw [heq, hk] at hb
              exact Nat.le_of_eq (Option.some.inj hb).symm
          omega
      | aborted fault => exact hsnd.elim
      | claiming _ _ => cases hfin
      | reading _ _ _ => cases hfin
      | holding _ _ _ _ => cases hfin
      | fencing _ _ _ => cases hfin
    obtain ⟨w, hmem, hw⟩ := h.covered hM hclaimed hk haM hlast
    have hwf : failure? w = some f := by
      have hfin := hfinished w hmem
      cases w with
      | returned acc failure =>
        cases failure with
        | none => exact hw.elim
        | some g => exact congrArg some hw
      | aborted fault => exact hw.elim
      | claiming _ _ => cases hfin
      | reading _ _ _ => cases hfin
      | holding _ _ _ _ => cases hfin
      | fencing _ _ _ => cases hfin
    rcases hfold : s.workers.foldl System.keep none with _ | g <;> rw [hfold] at hkept ho
    · exact absurd (List.mem_cons_of_mem _ (List.mem_map.mpr ⟨w, hmem, hwf⟩)) (hkept f)
    · obtain ⟨hfrom, hmin⟩ := hkept
      obtain ⟨w', hw', hg⟩ := List.mem_map.mp ((List.mem_cons.mp hfrom).resolve_left nofun)
      obtain rfl : g = f := by
        rcases fails_first hc hties hM (hfails w' hw' g hg) with hlt | rfl
        · exact absurd (hmin f (List.mem_cons_of_mem _ (List.mem_map.mpr ⟨w, hmem, hwf⟩)))
            (Nat.not_le_of_lt hlt)
        · rfl
      exact (Option.some.inj ho).symm
  · rcases hfold : s.workers.foldl System.keep none with _ | g <;> rw [hfold] at hkept ho
    · exact ⟨_, (Option.some.inj ho).symm⟩
    · obtain ⟨w, hw, hg⟩ := List.mem_map.mp ((List.mem_cons.mp hkept.1).resolve_left nofun)
      obtain ⟨_, m, _, -, -, hm⟩ := hfails w hw g hg
      rw [hpass m] at hm; cases hm

end Unordered

end Coseva
