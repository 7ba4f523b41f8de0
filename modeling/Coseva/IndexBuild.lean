/-
  Coseva — the positions of an index (`coseva/src/index/csv_index.rs`).

  * `buildPositionsSerial`: one parser reads every record;
  * `parseIndexChunk`: a thread reads the records of one chunk, in a document
    that ends with the chunk;
  * `IndexWorker.step`: one step of a thread, which claims chunks from a shared
    cursor, passes over those behind a failure and keeps what it has read;
  * `IndexSystem.run`: the pool of the threads under a schedule;
  * `BuildsParallel`: what `build_positions_parallel` may return.
-/
import Coseva.Parallel

namespace Coseva

/-- The byte that an error is located at; one of the configuration is located
    nowhere. -/
def Failure.byte : Failure → ℕ
  | .parse (.error _ location) => location.byte
  | .parse _ | .configuration _ => 0

/-- The panic that ends a thread. -/
def Failure.fault? : Failure → Option Fault
  | .parse (.error _ _) | .configuration _ => none
  | .parse fault => some fault

/-- `advance_line_origin`. -/
def Engine.advanceLineOrigin (byte line : ℕ) (e : Engine) : Engine :=
  if byte ≥ e.lineOrigin then
    { e with lineBase := max line 1, lineOrigin := byte, foldedUpto := byte, foldedLines := 0 }
  else e

/-- `IndexOptions`, of a valid format. -/
structure IndexOptions where
  format : FormatOptions
  limits : Limits
  valid : format.toFormatSettings.Valid

/-- The settings an index is built with. -/
def IndexOptions.settings (o : IndexOptions) (host : Host) : ParserSettings :=
  { o.format with limits := o.limits, fieldCount := .flexible, headers := .none, host }

namespace CsvIndex

/-- What an index keeps of a record. -/
structure Position where
  offset : ℕ
  line : ℕ
  deriving DecidableEq, Repr

variable (cfg : ParserSettings) (input : Bytes)

/-! ## One parser -/

/-- The positions of the records from the cursor on, at most `fuel` of them. -/
def positionsFrom : (fuel : ℕ) → Engine → Except Fault (List Position)
  | 0, _ => .error .stuck
  | fuel + 1, e =>
    match SliceParser.nextRecord cfg none input e with
    | .error fault _ => .error fault
    | .ok none _ => .ok []
    | .ok (some record) e =>
      let line := physicalLine input e.lineBase e.lineOrigin record.start
      (⟨record.start, line⟩ :: ·) <$>
        positionsFrom fuel (e.advanceLineOrigin record.start line)

/-- `build_positions_serial`. -/
def buildPositionsSerial : Except Failure (List Position) :=
  match SliceParser.build cfg input with
  | .error fault => .error (.parse fault)
  | .ok e => (positionsFrom cfg input (input.length + 1) e).mapError .parse

/-! ## Chunks -/

/-- `parse_index_chunk`. -/
def parseIndexChunk (chunks : List Boundary) (index : ℕ) (start : Boundary) :
    Except Failure (List Position) :=
  let stop := (chunks[index + 1]?).elim input.length (·.byte)
  let doc := input.take stop
  match SliceParser.build cfg doc with
  | .error fault => .error (.parse fault)
  | .ok e =>
    match SliceParser.seek cfg doc start e with
    | .error failure => .error failure
    | .ok e => (positionsFrom cfg doc (doc.length + 1) e).mapError .parse

/-- `parallel_index_supported`. -/
def parallelIndexSupported (o : FormatSettings) : Bool :=
  o.dialect.comment.isNone && decide (o.dialect.escape = .doubleQuote) && !o.dialect.multibyte
    && o.syntax'.quotingEnabled && !o.syntax'.permitsUnquotedQuotes
    && decide (o.blankRecords ≠ .skip)

/-- `INDEX_CHUNKS_PER_THREAD`. -/
def chunksPerThread : ℕ := 16

/-- `PARALLEL_INDEX_THRESHOLD_BYTES`. -/
def parallelThreshold : ℕ := 8 * 2 ^ 20

/-! ## Threads -/

/-- A thread of `build_positions_parallel`, with what it has read (`worker_chunks`):
    the positions of a chunk, under its index, or the error of one. -/
inductive IndexWorker (α : Type) where
  /-- about to claim a chunk -/
  | claiming (held : List (Except Failure (ℕ × α)))
  /-- about to look at the fence with the chunk that it claimed -/
  | checking (index : ℕ) (start : Boundary) (held : List (Except Failure (ℕ × α)))
  /-- about to publish the error of a chunk -/
  | fencing (failure : Failure) (held : List (Except Failure (ℕ × α)))
  | returned (held : List (Except Failure (ℕ × α)))
  | aborted (fault : Fault)

namespace IndexWorker

variable {α : Type} (chunks : List Boundary) (parse : ℕ → Boundary → Except Failure α)

/-- The chunk that a thread claims. -/
def claim (index : ℕ) (held : List (Except Failure (ℕ × α))) : IndexWorker α :=
  match chunks[index]? with
  | none => .returned held
  | some start => .checking index start held

/-- A chunk that was claimed, under a value of the fence. -/
def check (index : ℕ) (start : Boundary) (held : List (Except Failure (ℕ × α)))
    (barrier : Option ℕ) : IndexWorker α :=
  if isFenced start.byte barrier then .claiming held
  else
    match parse index start with
    | .ok positions => .claiming (held ++ [.ok (index, positions)])
    | .error failure =>
      match failure.fault? with
      | some fault => .aborted fault
      | none => .fencing failure held

/-- One step of a thread, if it has not ended.  Where it looks at the fence it sees
    the value with the index `seen`. -/
def step (seen : ℕ) (shared : Shared) : IndexWorker α → Option (Shared × IndexWorker α)
  | claiming held => some (shared.claim, claim chunks shared.cursor held)
  | checking index start held =>
    some (shared, check parse index start held shared.barrier[seen]?)
  | fencing failure held => some (shared.fence failure.byte, claiming (held ++ [.error failure]))
  | returned _ | aborted _ => none

/-- The panic of a thread. -/
def fault? : IndexWorker α → Option Fault
  | aborted fault => some fault
  | _ => none

/-- Whether the thread has ended. -/
def finished : IndexWorker α → Bool
  | returned _ | aborted _ => true
  | _ => false

/-- What a thread returns. -/
def results : IndexWorker α → List (Except Failure (ℕ × α))
  | returned held => held
  | _ => []

end IndexWorker

/-- The threads and what they share. -/
abbrev IndexSystem (α : Type) := Pool.State Shared (IndexWorker α)

namespace IndexSystem

variable {α : Type} (chunks : List Boundary) (parse : ℕ → Boundary → Except Failure α)

/-- One step of one thread. -/
def step : IndexSystem α → Action → Option (IndexSystem α) :=
  Pool.step (IndexWorker.step chunks parse)

/-- The steps of a schedule. -/
def run : List Action → IndexSystem α → Option (IndexSystem α) :=
  Schedule.run (step chunks parse)

/-- The system when its threads are spawned. -/
def spawn (workers : ℕ) : IndexSystem α :=
  ⟨⟨0, []⟩, List.replicate workers (.claiming [])⟩

/-- `keep_earliest_failure`. -/
def keepEarliestFailure (earliest : Option Failure) (result : Except Failure (ℕ × α)) :
    Option Failure :=
  match result, earliest with
  | .ok _, earliest => earliest
  | .error failure, none => some failure
  | .error failure, some kept => if failure.byte < kept.byte then some failure else some kept

/-- The chunk of a result that is not an error. -/
def chunk? : Except Failure (ℕ × α) → Option (ℕ × α)
  | .ok chunk => some chunk
  | .error _ => none

/-- What the threads come to once every one has ended: the results of the chunks
    in their order, the failure that is kept, or a panic. -/
def outcome (s : IndexSystem α) : Option (Except Failure (List α)) :=
  if s.workers.all IndexWorker.finished then
    match s.workers.findSome? IndexWorker.fault? with
    | some fault => some (.error (.parse fault))
    | none =>
      let results := s.workers.flatMap IndexWorker.results
      match results.foldl keepEarliestFailure none with
      | some failure => some (.error failure)
      | none =>
        let chunks := (results.filterMap chunk?).mergeSort fun a b => a.1 ≤ b.1
        some (.ok (chunks.map (·.2)))
  else none

end IndexSystem

/-- `build_positions_parallel`: what a build with so many threads may return. -/
inductive BuildsParallel (threads : ℕ) : Except Failure (List Position) → Prop
  | unprepared {fault : Fault} (h : SliceParser.build cfg input = .error fault) :
    BuildsParallel threads (.error (.parse fault))
  | misplaced {probe : Engine} {failure : Failure}
      (hb : SliceParser.build cfg input = .ok probe)
      (hs : SliceParser.seek cfg input (SliceParser.location input probe) probe =
        .error failure) : BuildsParallel threads (.error failure)
  | threads {probe probe' : Engine} {chunks : List Boundary} {schedule : List Action}
      {s : IndexSystem (List Position)} {outcome : Except Failure (List (List Position))}
      (hb : SliceParser.build cfg input = .ok probe)
      (hs : SliceParser.seek cfg input (SliceParser.location input probe) probe = .ok probe')
      (hc : chunks = Split.boundaries cfg.dialect input (SliceParser.location input probe)
        (threads * chunksPerThread))
      (hrun : IndexSystem.run chunks (parseIndexChunk cfg input chunks) schedule
        (IndexSystem.spawn (max (min threads chunks.length) 1)) = some s)
      (houtcome : s.outcome = some outcome) :
    BuildsParallel threads (outcome.map List.flatten)

/-- `build_positions`: what the build of an index may return on a machine with
    so many threads. -/
inductive Builds (o : IndexOptions) (host : Host) (threads : ℕ) :
    Except Failure (List Position) → Prop
  | serial (h : ¬ (input.length ≥ parallelThreshold ∧ parallelIndexSupported o.format.toFormatSettings)) :
    Builds o host threads (buildPositionsSerial (o.settings host) input)
  | parallel {r : Except Failure (List Position)} (hl : input.length ≥ parallelThreshold)
      (hf : parallelIndexSupported o.format.toFormatSettings = true)
      (h : BuildsParallel (o.settings host) input threads r) : Builds o host threads r

end CsvIndex

end Coseva
