/-
  Coseva — an ordered run hands over what the chunks hold in their order.

  * `upcoming_moves`: a worker reads forward, and every record brings it nearer to the end;
  * `network_keeps`, `network_ranked`: what holds of the threads, and how far they are from
    their end;
  * `chunkLoop_sends`: what a worker sends of a chunk is what the chunk holds;
  * `BatchParser.delivers_inOrder`: every call that returns has handed over the chunks in order,
    and fails as they do;
  * `BatchParser.delivers_ends`: every call ends, holding no more than its queues.
-/
import Coseva.Ordered
import Coseva.OwnedMoves
import Coseva.UnorderedSerial

namespace Coseva

open Engine Run Channels

namespace Ordered

variable {T E : Type} {p : BatchParser} {cfg : ParserSettings} {input : Bytes} {c : BatchClosure T E}
  {chunks : List Boundary} {threads : ℕ}

/-! ## Reading forward -/

/-- A chunk is read from a parser that may read on. -/
theorem seek_poised (hheaders : cfg.headers ≠ .firstRecord) {start : Boundary} {parser parser' : Engine}
    (h : SliceParser.seek cfg input start parser = .ok parser') : Poised input parser' := by
  unfold SliceParser.seek at h
  split_ifs at h with hbyte
  have hinit : ∀ parser₁ : Engine, ensureHeaders cfg input parser = .ok () parser₁ →
      parser₁.headersInitialized = true := by
    intro parser₁ hrun
    unfold ensureHeaders at hrun
    rw [get_bind] at hrun
    split_ifs at hrun with hdone
    · cases hrun
      exact hdone
    · rw [set_bind] at hrun
      cases hrun
      rfl
  split at h
  · cases h
  · rename_i parser₁ hrun
    cases h
    exact ⟨rfl, hinit parser₁ hrun, rfl, Nat.le_of_not_lt hbyte, nofun⟩

variable (hs : cfg.dialect.Sound)

include hs in
/-- A record that is read lies ahead of the parser, which may read on behind it. -/
theorem upcoming_moves {parser : Engine} (h : Poised input parser) {record : OwnedRecord}
    {parser' : Engine} (hnext : p.upcoming cfg input parser = .record record parser') :
    parser.location < parser'.location ∧ Poised input parser' := by
  obtain ⟨next, hle, -, -, -, -, hadvance⟩ := advance_moves (F := p.F) hs h
  unfold BatchParser.upcoming at hnext
  split_ifs at hadvance with hend
  · rw [hadvance] at hnext
    cases hnext
  obtain ⟨hadvance, hpoised⟩ := hadvance
  rw [hadvance] at hnext
  have hmoves := readByteRecordInto_moves (F := p.F) hs hpoised
  simp only at hnext
  split at hnext
  · rename_i hread
    rw [hread] at hmoves
    cases hnext
    obtain ⟨hahead, hpoised'⟩ := hmoves
    have h1 : next.location ≤ record.start := hahead.le
    have h2 := hahead.lt
    have h3 := hahead.stop
    exact ⟨by omega, hpoised'⟩
  · cases hnext

theorem move_opening (parser : Engine) (index : ℕ) :
    BatchWorker.move p cfg input chunks threads (.opening parser index) =
      (chunks[index]?).elim .halt fun start => .work (.openChunk cfg input start index parser) := by
  rw [BatchWorker.move]
  cases chunks[index]? with
  | none => rfl
  | some start => rfl

/-! ## What holds of the threads -/

/-- The parsers that read on may do so, and batches hold records, no more than they may. -/
def Fit (p : BatchParser) (input : Bytes) : BatchWorker → Prop
  | .reading parser _ batch => Poised input parser ∧ batch.length < p.batchRecords
  | .emitting parser _ batch behind =>
    batch ≠ [] ∧ batch.length ≤ p.batchRecords ∧ (behind = .more → Poised input parser)
  | _ => True

/-- A batch holds records, no more than it may. -/
def Filled (p : BatchParser) : Message → Prop
  | .batch records => records ≠ [] ∧ records.length ≤ p.batchRecords
  | _ => True

theorem fit_ofFailure (failure : Failure) : Fit p input (.ofFailure failure) := by
  rcases failure with (_ | _ | _) | _
  · trivial
  · trivial
  · trivial
  · trivial

theorem fit_finish {parser : Engine} {index : ℕ} {batch : List OwnedRecord} {behind : AfterBatch}
    (hbatch : batch.length ≤ p.batchRecords) (hbehind : behind ≠ .more) :
    Fit p input (.finish parser index batch behind) := by
  unfold BatchWorker.finish
  split_ifs with hempty
  · cases behind with
    | more => exact absurd rfl hbehind
    | done => trivial
    | failed failure => trivial
  · exact ⟨hempty, hbatch, fun h => absurd h hbehind⟩

theorem fit_openChunk (hheaders : cfg.headers ≠ .firstRecord) (start : Boundary) (index : ℕ)
    (parser : Engine) : Fit p input (.openChunk cfg input start index parser) := by
  unfold BatchWorker.openChunk
  split
  · exact fit_ofFailure _
  · rename_i hseek
    exact ⟨seek_poised hheaders hseek, p.batchRecords_pos⟩

include hs in
theorem fit_read {parser : Engine} {index : ℕ} {batch : List OwnedRecord}
    (h : Fit p input (.reading parser index batch)) :
    Fit p input (.read p cfg input chunks parser index batch) := by
  obtain ⟨hpoised, hbatch⟩ := h
  unfold BatchWorker.read
  split
  · exact fit_finish (Nat.le_of_lt hbatch) nofun
  · exact fit_finish (Nat.le_of_lt hbatch) nofun
  · trivial
  · rename_i record parser' hnext
    obtain ⟨-, hpoised'⟩ := upcoming_moves hs hpoised hnext
    have hlength : (batch ++ [record]).length = batch.length + 1 := by
      rw [List.length_append, List.length_singleton]
    simp only
    split_ifs with hlast hfull
    · exact ⟨by simp, by omega, nofun⟩
    · exact ⟨by simp, by omega, fun _ => hpoised'⟩
    · exact ⟨hpoised', Nat.lt_of_not_le hfull⟩

include hs in
theorem network_keeps (hheaders : cfg.headers ≠ .firstRecord) :
    (p.network cfg input c chunks threads).Keeps (Fit p input) (Fit p input) (Filled p) := by
  have hwork : ∀ w next, BatchWorker.move p cfg input chunks threads w = .work next →
      Fit p input w → Fit p input next := by
    intro w next hmove hfit
    cases w with
    | opening parser index =>
      rw [move_opening] at hmove
      cases hchunk : chunks[index]? with
      | none => rw [hchunk] at hmove; cases hmove
      | some start =>
        rw [hchunk] at hmove
        cases hmove
        exact fit_openChunk hheaders _ _ _
    | reading parser index batch =>
      cases hmove
      exact fit_read hs hfit
    | emitting | closing | failing | returned | aborted => cases hmove
  have hsend : ∀ w message next, BatchWorker.move p cfg input chunks threads w = .send message next →
      Fit p input w → Fit p input next ∧ Fit p input (.refused w) ∧ Filled p message := by
    intro w message next hmove hfit
    cases w with
    | opening parser index =>
      rw [move_opening] at hmove
      cases hchunk : chunks[index]? with
      | none => rw [hchunk] at hmove; cases hmove
      | some start => rw [hchunk] at hmove; cases hmove
    | emitting parser index batch behind =>
      cases hmove
      obtain ⟨hne, hlength, hpoised⟩ := hfit
      refine ⟨?_, trivial, hne, hlength⟩
      cases behind with
      | more => exact ⟨hpoised rfl, p.batchRecords_pos⟩
      | done => trivial
      | failed failure => trivial
    | closing parser index =>
      cases hmove
      exact ⟨trivial, trivial, trivial⟩
    | failing failure =>
      cases hmove
      exact ⟨trivial, trivial, trivial⟩
    | reading | returned | aborted => cases hmove
  refine ⟨fun w next hmove => ⟨hwork w next hmove, hwork w next hmove⟩, fun w message next hmove =>
    ⟨hsend w message next hmove, fun hfit => (hsend w message next hmove hfit).2.1⟩⟩

/-! ## How far the threads are from their end -/

/-- A bound on the steps that are left to a worker. -/
def rank (input : Bytes) (chunks : List Boundary) : BatchWorker → ℕ
  | .opening _ index => (chunks.length - index) * (2 * input.length + 5) + 1
  | .reading parser index _ =>
    (chunks.length - index - 1) * (2 * input.length + 5) + 2 * (input.length - parser.location) + 4
  | .emitting parser index _ .more =>
    (chunks.length - index - 1) * (2 * input.length + 5) + 2 * (input.length - parser.location) + 5
  | .emitting _ index _ _ => (chunks.length - index - 1) * (2 * input.length + 5) + 3
  | .closing _ index => (chunks.length - index - 1) * (2 * input.length + 5) + 2
  | .failing _ => 1
  | .returned | .aborted _ => 0

theorem rank_ofFailure (failure : Failure) : rank input chunks (.ofFailure failure) ≤ 1 := by
  rcases failure with (_ | _ | _) | _
  · exact Nat.le_refl _
  · exact Nat.zero_le _
  · exact Nat.zero_le _
  · exact Nat.le_refl _

theorem rank_finish {parser : Engine} {index : ℕ} {batch : List OwnedRecord} {behind : AfterBatch}
    (hbehind : behind ≠ .more) : rank input chunks (.finish parser index batch behind) ≤
      (chunks.length - index - 1) * (2 * input.length + 5) + 3 := by
  unfold BatchWorker.finish
  cases behind with
  | more => exact absurd rfl hbehind
  | done =>
    split_ifs
    · exact Nat.le_succ _
    · exact Nat.le_refl _
  | failed failure =>
    split_ifs
    · show 1 ≤ _
      omega
    · exact Nat.le_refl _

include hs in
theorem rank_read {parser : Engine} {index : ℕ} {batch : List OwnedRecord}
    (h : Poised input parser) :
    rank input chunks (.read p cfg input chunks parser index batch) <
      rank input chunks (.reading parser index batch) := by
  unfold BatchWorker.read
  show _ < (chunks.length - index - 1) * (2 * input.length + 5) + 2 * (input.length - parser.location) + 4
  split
  · exact Nat.lt_of_le_of_lt (rank_finish nofun) (by omega)
  · exact Nat.lt_of_le_of_lt (rank_finish nofun) (by omega)
  · exact Nat.succ_pos _
  · rename_i record parser' hnext
    obtain ⟨hlt, hpoised⟩ := upcoming_moves hs h hnext
    have hin := hpoised.inside
    simp only
    split_ifs
    · show (chunks.length - index - 1) * (2 * input.length + 5) + 3 < _
      omega
    · show (chunks.length - index - 1) * (2 * input.length + 5) + 2 * (input.length - parser'.location) + 5 < _
      omega
    · show (chunks.length - index - 1) * (2 * input.length + 5) + 2 * (input.length - parser'.location) + 4 < _
      omega

include hs in
theorem network_ranked (hthreads : 0 < threads) :
    (p.network cfg input c chunks threads).Ranked (Fit p input) (rank input chunks) := by
  constructor
  · intro w next hfit hmove
    change BatchWorker.move p cfg input chunks threads w = .work next at hmove
    cases w with
    | opening parser index =>
      rw [move_opening] at hmove
      rcases hchunk : chunks[index]? with _ | start
      · rw [hchunk] at hmove; cases hmove
      rw [hchunk] at hmove
      cases hmove
      obtain ⟨hlt, -⟩ := List.getElem?_eq_some_iff.mp hchunk
      obtain ⟨k, hk⟩ : ∃ k, chunks.length - index = k + 1 := ⟨chunks.length - index - 1, by omega⟩
      show _ < (chunks.length - index) * (2 * input.length + 5) + 1
      rw [hk, Nat.succ_mul]
      unfold BatchWorker.openChunk
      split
      · exact Nat.lt_of_le_of_lt (rank_ofFailure _) (by omega)
      · show (chunks.length - index - 1) * (2 * input.length + 5) + _ + 4 < _
        rw [hk, Nat.add_sub_cancel]
        omega
    | reading parser index batch =>
      cases hmove
      exact rank_read hs hfit.1
    | emitting | closing | failing | returned | aborted => cases hmove
  · intro w message next hfit hmove
    change BatchWorker.move p cfg input chunks threads w = .send message next at hmove
    cases w with
    | opening parser index =>
      rw [move_opening] at hmove
      cases hchunk : chunks[index]? with
      | none => rw [hchunk] at hmove; cases hmove
      | some start => rw [hchunk] at hmove; cases hmove
    | emitting parser index batch behind =>
      cases hmove
      show rank input chunks (.sent parser index behind) < _ ∧
        (chunks.length - index - 1) * (2 * input.length + 5) + 2 < _
      cases behind with
      | more =>
        constructor
        · exact Nat.lt_succ_self _
        · show _ < (chunks.length - index - 1) * (2 * input.length + 5) + 2 * _ + 5
          omega
      | done => exact ⟨Nat.lt_succ_self _, Nat.lt_succ_self _⟩
      | failed failure =>
        constructor
        · show 1 < _ + 3
          omega
        · exact Nat.lt_succ_self _
    | closing parser index =>
      cases hmove
      show (chunks.length - (index + threads)) * (2 * input.length + 5) + 1 <
        (chunks.length - index - 1) * (2 * input.length + 5) + 2 ∧ 0 < _
      have hle : chunks.length - (index + threads) ≤ chunks.length - index - 1 := by omega
      have hmul := Nat.mul_le_mul_right (2 * input.length + 5) hle
      exact ⟨by omega, Nat.succ_pos _⟩
    | failing failure =>
      cases hmove
      exact ⟨Nat.zero_lt_one, Nat.zero_lt_one⟩
    | reading | returned | aborted => cases hmove
  · intro d
    cases d with
    | draining chunk seen => rfl
    | returned seen error => rfl

/-! ## What a worker sends -/

/-- What follows a chunk: a failure is reported, unless it is a panic. -/
def failureMessages : Failure → List Message
  | .parse (.error kind location) => [.failed (.parse (.error kind location))]
  | .parse _ => []
  | .configuration detail => [.failed (.configuration detail)]

/-- Where a worker halts behind a failure. -/
def failureEnd : Failure → BatchWorker
  | .parse (.error _ _) => .returned
  | .parse fault => .aborted fault
  | .configuration _ => .returned

theorem ofFailure_sends (failure : Failure) :
    Sends (p.network cfg input c chunks threads) (.ofFailure failure) (failureMessages failure)
      (failureEnd failure) := by
  rcases failure with (_ | _ | _) | _
  · exact .send rfl (.halt rfl)
  · exact .halt rfl
  · exact .halt rfl
  · exact .send rfl (.halt rfl)

/-- The state of a worker behind the batches of a chunk. -/
def chunkEnd (index : ℕ) : ChunkEnd → BatchWorker
  | .done parser => .closing parser index
  | .failed failure => .ofFailure failure

theorem finish_sends {parser : Engine} {index : ℕ} {batch : List OwnedRecord} {behind : AfterBatch}
    {rest : List Message} {last : BatchWorker}
    (h : Sends (p.network cfg input c chunks threads) (.sent parser index behind) rest last) :
    Sends (p.network cfg input c chunks threads) (.finish parser index batch behind)
      ((BatchParser.flush batch).map .batch ++ rest) last := by
  unfold BatchWorker.finish BatchParser.flush
  split_ifs
  · exact h
  · exact .send rfl h

include hs in
/-- **A worker sends what its chunk holds.** -/
theorem chunkLoop_sends {index : ℕ} {rest : List Message} {last : BatchWorker} (fuel : ℕ) :
    ∀ (parser : Engine) (batch : List OwnedRecord), Poised input parser →
      input.length - parser.location < fuel →
      Sends (p.network cfg input c chunks threads)
        (chunkEnd index
          (p.chunkLoop cfg input (BatchParser.chunkStop input chunks index) fuel batch parser).2)
        rest last →
      Sends (p.network cfg input c chunks threads) (.reading parser index batch)
        ((p.chunkLoop cfg input (BatchParser.chunkStop input chunks index) fuel batch parser).1.map
          .batch ++ rest) last := by
  induction fuel with
  | zero => exact fun _ _ _ hfuel => absurd hfuel (Nat.not_lt_zero _)
  | succ fuel ih =>
    intro parser batch hpoised hfuel hrest
    refine .work rfl ?_
    rw [BatchParser.chunkLoop] at hrest ⊢
    unfold BatchWorker.read
    cases hnext : p.upcoming cfg input parser with
    | ended parser' =>
      rw [hnext] at hrest
      exact finish_sends hrest
    | failed fault =>
      rw [hnext] at hrest
      cases fault with
      | error kind location => exact finish_sends hrest
      | panic => exact hrest
      | stuck => exact hrest
    | record record parser' =>
      obtain ⟨hlt, hpoised'⟩ := upcoming_moves hs hpoised hnext
      have hin := hpoised'.inside
      rw [hnext] at hrest
      simp only at hrest ⊢
      split_ifs at hrest ⊢ with hlast hfull
      · exact .send rfl hrest
      · exact .send rfl (ih parser' [] hpoised' (by omega) hrest)
      · exact ih parser' _ hpoised' (by omega) hrest

include hs in
theorem parseChunk_sends (hheaders : cfg.headers ≠ .firstRecord) {parser : Engine} {index : ℕ}
    {start : Boundary} (hchunk : chunks[index]? = some start) {rest : List Message} {last : BatchWorker}
    (h : Sends (p.network cfg input c chunks threads)
      (chunkEnd index
        (p.parseChunk cfg input start (BatchParser.chunkStop input chunks index) parser).2) rest last) :
    Sends (p.network cfg input c chunks threads) (.opening parser index)
      ((p.parseChunk cfg input start (BatchParser.chunkStop input chunks index) parser).1.map
        .batch ++ rest) last := by
  have hmove : BatchWorker.move p cfg input chunks threads (.opening parser index) =
      .work (.openChunk cfg input start index parser) := by
    rw [move_opening, hchunk]
    rfl
  refine .work hmove ?_
  unfold BatchParser.parseChunk at h ⊢
  unfold BatchWorker.openChunk
  cases hseek : SliceParser.seek cfg input start parser with
  | error failure =>
    rw [hseek] at h
    exact h
  | ok parser' =>
    rw [hseek] at h
    have hpoised := seek_poised hheaders hseek
    exact chunkLoop_sends hs _ _ _ hpoised (by omega) h

/-- The messages of a worker from a chunk of its own on, and where it halts. -/
def messagesFrom (p : BatchParser) (cfg : ParserSettings) (input : Bytes) (chunks : List Boundary)
    (threads : ℕ) : (fuel : ℕ) → Engine → (index : ℕ) → List Message × BatchWorker
  | 0, parser, index => ([], .opening parser index)
  | fuel + 1, parser, index =>
    match chunks[index]? with
    | none => ([], .opening parser index)
    | some start =>
      let chunk := p.parseChunk cfg input start (BatchParser.chunkStop input chunks index) parser
      let behind :=
        match chunk.2 with
        | .done parser =>
          let rest := messagesFrom p cfg input chunks threads fuel parser (index + threads)
          (Message.chunkDone :: rest.1, rest.2)
        | .failed failure => (failureMessages failure, failureEnd failure)
      (chunk.1.map .batch ++ behind.1, behind.2)

include hs in
theorem messagesFrom_sends (hheaders : cfg.headers ≠ .firstRecord) (hthreads : 0 < threads)
    (fuel : ℕ) : ∀ (parser : Engine) (index : ℕ), chunks.length - index < fuel →
      Sends (p.network cfg input c chunks threads) (.opening parser index)
        (messagesFrom p cfg input chunks threads fuel parser index).1
        (messagesFrom p cfg input chunks threads fuel parser index).2 := by
  induction fuel with
  | zero => exact fun _ _ hfuel => absurd hfuel (Nat.not_lt_zero _)
  | succ fuel ih =>
    intro parser index hfuel
    rw [messagesFrom]
    cases hchunk : chunks[index]? with
    | none =>
      refine .halt ?_
      show BatchWorker.move p cfg input chunks threads (.opening parser index) = _
      rw [move_opening, hchunk]
      rfl
    | some start =>
      obtain ⟨hlt, -⟩ := List.getElem?_eq_some_iff.mp hchunk
      simp only
      refine parseChunk_sends hs hheaders hchunk ?_
      cases (p.parseChunk cfg input start (BatchParser.chunkStop input chunks index) parser).2 with
      | done parser' => exact .send rfl (ih parser' (index + threads) (by omega))
      | failed failure => exact ofFailure_sends failure

/-! ## What the calling thread makes of it -/

/-- The calling thread has returned what the chunks in their order come to; where these panic, it has
    met the end of a queue. -/
def Settled (delivery : Delivery T E) (met : List ℕ) (lasts : List BatchWorker) (d : Drain T E) : Prop :=
  match delivery with
  | .returned seen error => d.result = (seen, error)
  | .aborted seen fault => d.result = (seen, none) ∧ ∃ i ∈ met, lasts[i]? = some (.aborted fault)

/-- The batches of the chunk that is drained. -/
theorem drains_batches {chunk w : ℕ} (hchunk : chunk < chunks.length) (hw : chunk % threads = w) :
    ∀ (batches : List (List OwnedRecord)) (seen : T) (supplies : List (List Message))
      (rest : List Message), supplies[w]? = some (batches.map .batch ++ rest) →
      (∀ seen', c.consumeAll seen batches = (seen', none) → ∀ met d,
        Drains (p.network cfg input c chunks threads) (supplies.set w rest) (.draining chunk seen') met d →
        Drains (p.network cfg input c chunks threads) supplies (.draining chunk seen) met d) ∧
      ∀ seen' error, c.consumeAll seen batches = (seen', some error) →
        Drains (p.network cfg input c chunks threads) supplies (.draining chunk seen) []
          (.returned seen' (some error)) := by
  intro batches
  induction batches with
  | nil =>
    intro seen supplies rest hget
    refine ⟨fun seen' h met d hd => ?_, fun seen' error h => by cases h⟩
    cases h
    have hrest : supplies[w]? = some rest := hget
    rw [set_getElem? hrest] at hd
    exact hd
  | cons batch batches ih =>
    intro seen supplies rest hget
    have hawaits : (p.network cfg input c chunks threads).awaits (.draining chunk seen) = some w := by
      show (if chunk < chunks.length then some (chunk % threads) else none) = some w
      rw [if_pos hchunk, hw]
    have hset : (supplies.set w (batches.map Message.batch ++ rest))[w]? =
        some (batches.map Message.batch ++ rest) := by
      obtain ⟨hlt, -⟩ := List.getElem?_eq_some_iff.mp hget
      exact List.getElem?_set_self hlt
    have hnext : ∀ met d, Drains (p.network cfg input c chunks threads)
        (supplies.set w (batches.map Message.batch ++ rest))
        (Drain.take c (.draining chunk seen) (some (.batch batch))) met d →
        Drains (p.network cfg input c chunks threads) supplies (.draining chunk seen) met d :=
      fun met d hd => .next hawaits hget hd
    rw [BatchClosure.consumeAll]
    rw [Drain.take] at hnext
    rcases hconsume : c.consume seen batch with ⟨seen₁, _ | error₁⟩
    · rw [hconsume] at hnext
      obtain ⟨hdone, hrefused⟩ := ih seen₁ _ rest hset
      refine ⟨fun seen' h met d hd => hnext met d (hdone seen' h met d ?_), fun seen' error h =>
        hnext _ _ (hrefused seen' error h)⟩
      rw [List.set_set]
      exact hd
    · rw [hconsume] at hnext
      refine ⟨fun seen' h => ?_, fun seen' error h => ?_⟩
      · cases h
      · cases h
        exact hnext _ _ (.ended rfl)

/-- At a chunk every worker has come to the first chunk of its own from there on. -/
def Dealt (p : BatchParser) (cfg : ParserSettings) (input : Bytes) (chunks : List Boundary)
    (threads chunk : ℕ) (parsers : List Engine) (supplies : List (List Message))
    (lasts : List BatchWorker) : Prop :=
  ∀ w < threads, ∃ parser index fuel, parsers[w]? = some parser ∧
    supplies[w]? = some (messagesFrom p cfg input chunks threads fuel parser index).1 ∧
    lasts[w]? = some (messagesFrom p cfg input chunks threads fuel parser index).2 ∧
    chunk ≤ index ∧ index < chunk + threads ∧ index % threads = w ∧ chunks.length - index < fuel

theorem eq_of_mod_eq {threads chunk index : ℕ} (hle : chunk ≤ index) (hlt : index < chunk + threads)
    (h : index % threads = chunk % threads) : index = chunk := by
  obtain ⟨d, rfl⟩ := Nat.exists_eq_add_of_le hle
  have hzero := Nat.sub_mod_eq_zero_of_mod_eq h
  rw [Nat.add_sub_cancel_left, Nat.mod_eq_of_lt (by omega)] at hzero
  rw [hzero, Nat.add_zero]

/-- **The queues are drained** as the chunks are parsed in their order. -/
theorem drains_chunks (hthreads : 0 < threads) (lasts : List BatchWorker) (left : ℕ) :
    ∀ (chunk : ℕ) (parsers : List Engine) (seen : T) (supplies : List (List Message)),
      chunk + left = chunks.length → Dealt p cfg input chunks threads chunk parsers supplies lasts →
      ∃ met d, Drains (p.network cfg input c chunks threads) supplies (.draining chunk seen) met d ∧
        Settled (p.chunksFrom cfg input c chunks threads left chunk parsers seen) met lasts d := by
  induction left with
  | zero =>
    intro chunk parsers seen supplies hleft _
    refine ⟨[], .draining chunk seen, .ended ?_, rfl⟩
    show (if chunk < chunks.length then some (chunk % threads) else none) = none
    rw [if_neg (by omega)]
  | succ left ih =>
    intro chunk parsers seen supplies hleft hdealt
    have hlt : chunk < chunks.length := by omega
    obtain ⟨start, hchunk⟩ : ∃ start, chunks[chunk]? = some start :=
      ⟨_, List.getElem?_eq_getElem hlt⟩
    obtain ⟨parser, index, fuel, hparser, hsupply, hlast, hle, hlt', hmod, hfuel⟩ :=
      hdealt _ (Nat.mod_lt chunk hthreads)
    obtain rfl := eq_of_mod_eq hle hlt' hmod
    obtain ⟨fuel, rfl⟩ : ∃ k, fuel = k + 1 := ⟨fuel - 1, by omega⟩
    rw [messagesFrom, hchunk] at hsupply hlast
    rw [BatchParser.chunksFrom, hchunk, hparser]
    simp only at hsupply hlast ⊢
    generalize p.parseChunk cfg input start (BatchParser.chunkStop input chunks index) parser =
      parsed at hsupply hlast ⊢
    obtain ⟨batches, last⟩ := parsed
    simp only at hsupply hlast ⊢
    obtain ⟨hdone, hrefused⟩ :=
      @drains_batches T E p cfg input c chunks threads _ _ hlt rfl batches seen supplies _ hsupply
    rcases hconsume : c.consumeAll seen batches with ⟨seen', _ | error⟩
    swap
    · exact ⟨[], _, hrefused seen' error hconsume, rfl⟩
    have hdone := hdone seen' hconsume
    have hawaits : (p.network cfg input c chunks threads).awaits (.draining index seen') =
        some (index % threads) := by
      show (if index < chunks.length then some (index % threads) else none) = _
      rw [if_pos hlt]
    obtain ⟨hw, -⟩ := List.getElem?_eq_some_iff.mp hsupply
    cases last with
    | failed failure =>
      simp only at hdone hlast ⊢
      have hget : (supplies.set (index % threads) (failureMessages failure))[index % threads]? =
          some (failureMessages failure) := List.getElem?_set_self hw
      rcases failure with (⟨kind, location⟩ | _ | _) | detail
      · exact ⟨[], _, hdone _ _ (.next hawaits hget (.ended rfl)), rfl⟩
      · exact ⟨_, _, hdone _ _ (.met hawaits hget (.ended rfl)), rfl, _, List.mem_singleton_self _, hlast⟩
      · exact ⟨_, _, hdone _ _ (.met hawaits hget (.ended rfl)), rfl, _, List.mem_singleton_self _, hlast⟩
      · exact ⟨[], _, hdone _ _ (.next hawaits hget (.ended rfl)), rfl⟩
    | done parser' =>
      simp only at hdone hlast ⊢
      generalize hrest : messagesFrom p cfg input chunks threads fuel parser' (index + threads) = rest
        at hdone hlast
      have hget : (supplies.set (index % threads) (Message.chunkDone :: rest.1))[index % threads]? =
          some (Message.chunkDone :: rest.1) := List.getElem?_set_self hw
      have hdealt' : Dealt p cfg input chunks threads (index + 1) (parsers.set (index % threads) parser')
          ((supplies.set (index % threads) (Message.chunkDone :: rest.1)).set (index % threads) rest.1)
          lasts := by
        intro w hw'
        rw [List.set_set]
        by_cases hsame : w = index % threads
        · subst hsame
          obtain ⟨hp, -⟩ := List.getElem?_eq_some_iff.mp hparser
          refine ⟨parser', index + threads, fuel, List.getElem?_set_self hp, ?_, ?_, by omega, by omega,
            Nat.add_mod_right _ _, by omega⟩
          · rw [hrest]
            exact List.getElem?_set_self hw
          · rw [hrest]
            exact hlast
        · obtain ⟨parser₁, index₁, fuel₁, h1, h2, h3, h4, h5, h6, h7⟩ := hdealt w hw'
          have hne : index₁ ≠ index := fun heq => hsame (h6.symm.trans (congrArg (· % threads) heq))
          refine ⟨parser₁, index₁, fuel₁, ?_, ?_, h3, by omega, by omega, h6, h7⟩
          · rw [List.getElem?_set_ne (Ne.symm hsame)]
            exact h1
          · rw [List.getElem?_set_ne (Ne.symm hsame)]
            exact h2
      obtain ⟨met, d, hd, hsettled⟩ := ih (index + 1) _ seen' _ (by omega) hdealt'
      exact ⟨met, d, hdone met d (.next hawaits hget hd), hsettled⟩

/-! ## Where the threads end -/

/-- Workers that have not come to a queue's end. -/
theorem drains_failed (failure : Failure) (seen : T) {supplies : List (List Message)}
    {lasts : List BatchWorker} (hchunks : 0 < chunks.length)
    (hget : supplies[0]? = some (failureMessages failure)) (hlast : lasts[0]? = some (failureEnd failure)) :
    ∃ met d, Drains (p.network cfg input c chunks threads) supplies (.draining 0 seen) met d ∧
      Settled (c.outcome seen failure) met lasts d := by
  have hawaits : (p.network cfg input c chunks threads).awaits (.draining 0 seen) = some 0 := by
    show (if 0 < chunks.length then some (0 % threads) else none) = _
    rw [if_pos hchunks, Nat.zero_mod]
  rcases failure with (⟨kind, location⟩ | _ | _) | detail
  · exact ⟨[], _, .next hawaits hget (.ended rfl), rfl⟩
  · exact ⟨_, _, .met hawaits hget (.ended rfl), rfl, _, List.mem_singleton_self _, hlast⟩
  · exact ⟨_, _, .met hawaits hget (.ended rfl), rfl, _, List.mem_singleton_self _, hlast⟩
  · exact ⟨[], _, .next hawaits hget (.ended rfl), rfl⟩

include hs in
/-- What the threads send, and what the calling thread makes of it. -/
theorem spawned_drains (hheaders : cfg.headers ≠ .firstRecord) (hthreads : 0 < threads)
    (hchunks : 0 < chunks.length) : ∃ supplies : List (List Message × BatchWorker),
      List.Forall₂ (fun w supply => Sends (p.network cfg input c chunks threads) w supply.1 supply.2)
        ((List.range threads).map (BatchWorker.spawn cfg input)) supplies ∧
      ∃ met d, Drains (p.network cfg input c chunks threads) (supplies.map Prod.fst)
          (.draining 0 c.init) met d ∧
        Settled (p.allChunks cfg input c chunks threads) met (supplies.map Prod.snd) d := by
  unfold BatchParser.allChunks
  have hget : ∀ {α : Type} (f : ℕ → α) {w : ℕ}, w < threads → ((List.range threads).map f)[w]? = some (f w) := by
    intro α f w hw
    rw [List.getElem?_map, List.getElem?_range hw]
    rfl
  cases hbuild : SliceParser.build cfg input with
  | error fault =>
    have hspawn : ∀ w, BatchWorker.spawn cfg input w = .ofFailure (.parse fault) := fun w => by
      rw [BatchWorker.spawn, hbuild]
    refine ⟨(List.range threads).map fun _ => (failureMessages (.parse fault), failureEnd (.parse fault)),
      ?_, drains_failed (.parse fault) c.init hchunks ?_ ?_⟩
    · rw [List.forall₂_map_left_iff, List.forall₂_map_right_iff, List.forall₂_same]
      exact fun w _ => (hspawn w).symm ▸ ofFailure_sends _
    · rw [List.map_map]
      exact hget _ hthreads
    · rw [List.map_map]
      exact hget _ hthreads
  | ok parser =>
    have hspawn : ∀ w, BatchWorker.spawn cfg input w = .opening parser w := fun w => by
      rw [BatchWorker.spawn, hbuild]
    refine ⟨(List.range threads).map (messagesFrom p cfg input chunks threads (chunks.length + 1) parser),
      ?_, drains_chunks hthreads _ chunks.length 0 _ c.init _ (Nat.zero_add _) ?_⟩
    · rw [List.forall₂_map_left_iff, List.forall₂_map_right_iff, List.forall₂_same]
      intro w _
      rw [hspawn]
      exact messagesFrom_sends hs hheaders hthreads _ _ _ (by omega)
    · intro w hw
      refine ⟨parser, w, chunks.length + 1, ?_, ?_, ?_, Nat.zero_le _, by omega, Nat.mod_eq_of_lt hw,
        by omega⟩
      · rw [List.getElem?_replicate, if_pos hw]
      · rw [List.map_map]
        exact hget _ hw
      · rw [List.map_map]
        exact hget _ hw

/-- A thread with this index panics when nothing that it sends is refused. -/
def ThreadPanics (p : BatchParser) (cfg : ParserSettings) (input : Bytes) (c : BatchClosure T E)
    (chunks : List Boundary) (threads : ℕ) (fault : Fault) : Prop :=
  ∃ w < threads, ∃ messages, Sends (p.network cfg input c chunks threads)
    (BatchWorker.spawn cfg input w) messages (.aborted fault)

/-- A worker whose message was refused. -/
def Dismissed : BatchWorker → Prop
  | .closing _ _ | .returned => True
  | _ => False

theorem dismissed_refused (w : BatchWorker) : Dismissed (.refused w) := by
  cases w <;> trivial

/-- **A thread that has panicked** does so on its own. -/
theorem threadPanics_of_run {schedule : List Channels.Action}
    {s : State BatchWorker Message (Drain T E)}
    (hrun : Channels.run (p.network cfg input c chunks threads) schedule
      (BatchParser.spawned cfg input c threads) = some s) {fault : Fault} {queue : List Message}
    (hmem : (BatchWorker.aborted fault, queue) ∈ s.producers) :
    ThreadPanics p cfg input c chunks threads fault := by
  have hkeeps : (p.network cfg input c chunks threads).Keeps
      (fun w => ∀ fault messages, Sends (p.network cfg input c chunks threads) w messages (.aborted fault) →
        ThreadPanics p cfg input c chunks threads fault) Dismissed (fun _ => True) := by
    constructor
    · intro w next hmove
      refine ⟨fun h fault messages hsends => h fault messages (.work hmove hsends), fun hdismissed => ?_⟩
      cases w with
      | closing | returned => cases hmove
      | opening | reading | emitting | failing | aborted => exact hdismissed.elim
    · intro w message next hmove
      refine ⟨fun h => ⟨fun fault messages hsends => h fault _ (.send hmove hsends),
        dismissed_refused w, trivial⟩, fun _ => dismissed_refused w⟩
  have hsound := run_holds hkeeps (spawn_sound (n := p.network cfg input c chunks threads) ?_ _) hrun
  · rcases (hsound _ _ hmem).producer with h | ⟨-, h⟩
    · exact h fault [] (.halt rfl)
    · exact h.elim
  · intro w hw fault messages hsends
    obtain ⟨i, hi, rfl⟩ := List.mem_map.mp hw
    exact ⟨i, List.mem_range.mp hi, messages, hsends⟩

include hs in
/-- **A run of the threads** hands over the chunks in their order. -/
theorem joined_allChunks (hheaders : cfg.headers ≠ .firstRecord) (hthreads : 0 < threads)
    (hchunks : 0 < chunks.length) {schedule : List Channels.Action}
    {s : State BatchWorker Message (Drain T E)}
    (hrun : Channels.run (p.network cfg input c chunks threads) schedule
      (BatchParser.spawned cfg input c threads) = some s)
    (hfinished : Finished (p.network cfg input c chunks threads) s) :
    (BatchParser.joined s).seen = (p.allChunks cfg input c chunks threads).seen ∧
      (BatchParser.joined s = p.allChunks cfg input c chunks threads ∨
        ∃ fault, BatchParser.joined s = .aborted (BatchParser.joined s).seen fault ∧
          ThreadPanics p cfg input c chunks threads fault) := by
  obtain ⟨supplies, hsends, met, d, hdrains, hsettled⟩ := spawned_drains (p := p) (c := c) hs hheaders hthreads hchunks
  obtain ⟨met', hdrains', hhalted⟩ := run_drains hsends hrun hfinished.1
  obtain ⟨rfl, rfl⟩ := hdrains.unique hdrains'
  have hseen : s.consumer.result.1 = (p.allChunks cfg input c chunks threads).seen := by
    unfold Settled at hsettled
    split at hsettled
    · rename_i hall
      rw [hall, hsettled]
      rfl
    · rename_i hall
      rw [hall, hsettled.1]
      rfl
  rcases hfault : s.producers.findSome? fun w => w.1.fault? with _ | fault
  · have hjoined : BatchParser.joined s = .returned s.consumer.result.1 s.consumer.result.2 := by
      rw [BatchParser.joined, hfault]
    rw [hjoined]
    refine ⟨hseen, Or.inl ?_⟩
    unfold Settled at hsettled
    split at hsettled
    · rename_i hall
      rw [hall, hsettled]
    · -- a chunk that panics leaves its thread so
      rename_i seen fault hall
      obtain ⟨-, i, hi, hlast⟩ := hsettled
      obtain ⟨supply, hsupply, -, hproducer⟩ := hhalted i hi
      rw [List.getElem?_map, hsupply] at hlast
      rw [Option.some.inj hlast] at hproducer
      rw [List.findSome?_eq_none_iff] at hfault
      cases hfault _ (List.mem_of_getElem? hproducer)
  · have hjoined : BatchParser.joined s = .aborted s.consumer.result.1 fault := by
      rw [BatchParser.joined, hfault]
    rw [hjoined]
    refine ⟨hseen, Or.inr ⟨fault, rfl, ?_⟩⟩
    obtain ⟨⟨w, queue⟩, hmem, hw⟩ := List.exists_of_findSome?_eq_some hfault
    cases w with
    | aborted fault' =>
      cases hw
      exact threadPanics_of_run hrun hmem
    | opening | reading | emitting | closing | failing | returned => cases hw

include hs in
/-- Every run of the threads can be carried to its end. -/
theorem spawned_ends (hheaders : cfg.headers ≠ .firstRecord) (hthreads : 0 < threads) :
    Sound (p.network cfg input c chunks threads) (Fit p input) (Fit p input) (Filled p)
        (BatchParser.spawned cfg input c threads) ∧
      ∀ schedule s, Channels.run (p.network cfg input c chunks threads) schedule
          (BatchParser.spawned cfg input c threads) = some s →
        ∃ schedule' s', Channels.run (p.network cfg input c chunks threads) schedule' s = some s' ∧
          Finished (p.network cfg input c chunks threads) s' := by
  have hkeeps : (p.network cfg input c chunks threads).Keeps (Fit p input) (Fit p input) (Filled p) :=
    network_keeps hs hheaders
  have hspawned : Sound (p.network cfg input c chunks threads) (Fit p input) (Fit p input) (Filled p)
      (BatchParser.spawned cfg input c threads) := by
    refine spawn_sound (fun w hw => ?_) _
    obtain ⟨i, -, rfl⟩ := List.mem_map.mp hw
    unfold BatchWorker.spawn
    split
    · trivial
    · exact fit_ofFailure _
  have hdepth : 0 < (p.network cfg input c chunks threads).depth := Nat.succ_pos _
  refine ⟨hspawned, fun schedule s hrun => ?_⟩
  refine exists_finished hdepth hkeeps (network_ranked hs hthreads) (fun d i hd => ?_)
    (run_holds hkeeps hspawned hrun)
  have hlength : (BatchParser.spawned cfg input c threads).producers.length = threads := by
    simp [BatchParser.spawned, spawn]
  rw [run_producers hrun, hlength]
  cases d with
  | draining chunk seen =>
    change (if chunk < chunks.length then some (chunk % threads) else none) = some i at hd
    split_ifs at hd
    cases hd
    exact Nat.mod_lt _ hthreads
  | returned seen error => cases hd

end Ordered

/-! ## Every call -/

namespace BatchParser

variable {T E : Type}

/-- What the threads of a call parse with. -/
theorem prepare_settings {p : BatchParser} {input : Bytes} {cfg : ParserSettings} {start : Boundary}
    (h : p.prepare input = .ok (cfg, start)) : cfg.dialect.Sound ∧ cfg.headers ≠ .firstRecord := by
  unfold ParallelParser.prepare at h
  split at h
  · cases h
  split at h
  · cases h
  rename_i headers _ _
  split at h
  · cases h
  cases h
  refine ⟨p.valid.sound, ?_⟩
  cases headers with
  | none => exact nofun
  | some record => exact nofun

/-- There are chunks, and threads for them. -/
theorem activeWorkers_pos (p : BatchParser) (input : Bytes) (start : Boundary) :
    0 < (p.chunks input start).length ∧ 0 < p.activeWorkers input start := by
  have hchunks : 0 < (p.chunks input start).length := by
    unfold ParallelParser.chunks Split.boundaries
    split_ifs
    · exact Nat.succ_pos _
    · exact Nat.succ_pos _
  refine ⟨hchunks, ?_⟩
  unfold ParallelParser.activeWorkers
  rw [List.length_take]
  exact Nat.lt_min.mpr ⟨p.threads_pos, hchunks⟩

/-- A thread of the call panics when nothing that it sends is refused. -/
def Panics (p : BatchParser) (input : Bytes) (c : BatchClosure T E) (fault : Fault) : Prop :=
  ∃ cfg start, p.prepare input = .ok (cfg, start) ∧
    Ordered.ThreadPanics p cfg input c (p.chunks input start) (p.activeWorkers input start) fault

/-- **Batches are handed over in the order of the document**: under every schedule the closure has
    seen what it sees of the chunks that are parsed one behind the other, and the call fails as they
    do, or with the panic of a thread. -/
theorem delivers_inOrder (p : BatchParser) (input : Bytes) (c : BatchClosure T E) {d : Delivery T E}
    (h : p.Delivers input c d) :
    d.seen = (p.inOrder input c).seen ∧
      (d = p.inOrder input c ∨ ∃ fault, d = .aborted d.seen fault ∧ p.Panics input c fault) := by
  unfold inOrder
  cases h with
  | unsplittable hs => rw [hs]; exact ⟨rfl, Or.inl rfl⟩
  | unprepared hs hp => rw [hs, hp]; exact ⟨rfl, Or.inl rfl⟩
  | serial hs hp hserial => simp only [hs, hp, hserial, if_true, true_or, and_self]
  | @threads cfg start schedule s hs hp hthreads hrun hfinished =>
    rw [hs, hp]
    simp only [hthreads, Bool.false_eq_true, if_false]
    obtain ⟨hsound, hheaders⟩ := prepare_settings hp
    obtain ⟨hchunks, hactive⟩ := activeWorkers_pos p input start
    obtain ⟨hseen, hjoined⟩ := Ordered.joined_allChunks hsound hheaders hactive hchunks hrun hfinished
    exact ⟨hseen, hjoined.imp_right fun ⟨fault, haborted, hpanics⟩ => ⟨fault, haborted, cfg, start, hp, hpanics⟩⟩

/-- A parser of two threads that sends single records. -/
def batchPair : BatchParser where
  toParallelParser := ParallelParser.pair
  batchRecords := 1
  batchRecords_pos := Nat.one_pos

/-- A closure that keeps every record. -/
def collecting : BatchClosure (List OwnedRecord) (Option ErrorKind) where
  init := []
  consume seen batch := (seen ++ batch, none)
  ofError kind _ := some kind
  ofConfiguration _ := none

/-- The record in front of the malformed one is handed over. -/
theorem delivers_inOrder_uneven :
    ∃ d, batchPair.Delivers ParallelParser.uneven collecting d ∧ d.seen.map (·.fields) = [[some [97]]] := by
  have hp : batchPair.prepare ParallelParser.uneven = .ok (ParallelParser.narrow, ⟨0, 1, 0⟩) :=
    ParallelParser.pair_prepare
  obtain ⟨hsound, hheaders⟩ := prepare_settings hp
  obtain ⟨-, hactive⟩ := activeWorkers_pos batchPair ParallelParser.uneven ⟨0, 1, 0⟩
  obtain ⟨-, hends⟩ := @Ordered.spawned_ends _ _ batchPair _ ParallelParser.uneven collecting
    (batchPair.chunks ParallelParser.uneven ⟨0, 1, 0⟩) _ hsound hheaders hactive
  obtain ⟨schedule, s, hrun, hfinished⟩ := hends [] _ rfl
  have hdelivers : batchPair.Delivers ParallelParser.uneven collecting (joined s) :=
    .threads (by decide) hp (by decide +kernel) hrun hfinished
  refine ⟨joined s, hdelivers, ?_⟩
  rw [(delivers_inOrder batchPair ParallelParser.uneven collecting hdelivers).1]
  decide

/-- **No call is stuck**: whatever has happened, every thread can go on to its end, after so many
    steps, and meanwhile no queue holds more than four messages and no batch more records than it
    may. -/
theorem delivers_ends (p : BatchParser) (input : Bytes) (c : BatchClosure T E) {cfg : ParserSettings}
    {start : Boundary} (hp : p.prepare input = .ok (cfg, start)) :
    ∃ bound, ∀ schedule s,
      Channels.run (p.network cfg input c (p.chunks input start) (p.activeWorkers input start)) schedule
        (spawned cfg input c (p.activeWorkers input start)) = some s →
      schedule.length ≤ bound ∧
      (∃ schedule' s', Channels.run
          (p.network cfg input c (p.chunks input start) (p.activeWorkers input start)) schedule' s = some s' ∧
        Finished (p.network cfg input c (p.chunks input start) (p.activeWorkers input start)) s') ∧
      ∀ worker queue, (worker, queue) ∈ s.producers → queue.length ≤ queueDepth ∧
        ∀ records, Message.batch records ∈ queue → records ≠ [] ∧ records.length ≤ p.batchRecords := by
  obtain ⟨hsound, hheaders⟩ := prepare_settings hp
  obtain ⟨-, hactive⟩ := activeWorkers_pos p input start
  generalize p.chunks input start = chunks
  generalize p.activeWorkers input start = threads at hactive ⊢
  have hkeeps : (p.network cfg input c chunks threads).Keeps (Ordered.Fit p input) (Ordered.Fit p input)
      (Ordered.Filled p) := Ordered.network_keeps hsound hheaders
  obtain ⟨hspawned, hends⟩ := @Ordered.spawned_ends _ _ p _ input c chunks _ hsound hheaders hactive
  refine ⟨measure (p.network cfg input c chunks threads) (Ordered.rank input chunks)
    (spawned cfg input c threads), fun schedule s hrun => ⟨?_, hends schedule s hrun, ?_⟩⟩
  · exact run_length hkeeps (Ordered.network_ranked hsound hactive) hspawned hrun
  · intro worker queue hmem
    have hholds := run_holds hkeeps hspawned hrun _ _ hmem
    exact ⟨hholds.depth, fun records hrecords => hholds.messages _ hrecords⟩

/-- The runs over three records are bounded. -/
theorem delivers_ends_uneven : ∃ bound, ∀ schedule s,
    Channels.run (batchPair.network ParallelParser.narrow ParallelParser.uneven collecting
      (batchPair.chunks ParallelParser.uneven ⟨0, 1, 0⟩)
      (batchPair.activeWorkers ParallelParser.uneven ⟨0, 1, 0⟩)) schedule
      (spawned ParallelParser.narrow ParallelParser.uneven collecting
        (batchPair.activeWorkers ParallelParser.uneven ⟨0, 1, 0⟩)) = some s →
    schedule.length ≤ bound := by
  have hp : batchPair.prepare ParallelParser.uneven = .ok (ParallelParser.narrow, ⟨0, 1, 0⟩) :=
    ParallelParser.pair_prepare
  obtain ⟨bound, hbound⟩ := delivers_ends batchPair ParallelParser.uneven collecting hp
  exact ⟨bound, fun schedule s hrun => (hbound schedule s hrun).1⟩

end BatchParser

end Coseva
