/-
  Coseva — the unordered modes of the parallel parser (`coseva/src/parallel.rs`,
  `parallel/unordered.rs`).

  * `ParallelParser.prepare`: headers and field count, settled before any thread
    starts;
  * `Worker.step`: one step of a thread, which claims chunks from a shared cursor
    and publishes its failure in a fence;
  * `System.run`: the pool of the threads under a schedule;
  * `ParallelParser.Returns`: what `for_each_record` and `fold` return.
-/
import Coseva.Lib.Pool
import Coseva.Seek

namespace Coseva

/-! ## The parser -/

/-- `ParallelParser`, of a valid format.  A static format is the one the parser
    was built with (`follows`). -/
structure ParallelParser where
  cfg : ParserSettings
  F : CsvFormat
  valid : cfg.toFormatSettings.Valid
  follows : ∀ o, F = some o → cfg.toFormatSettings = o.toFormatSettings
  threads : ℕ
  threads_pos : 0 < threads
  threshold : ℕ

/-- What a caller hands over: a seed for each worker, and what becomes of a
    record.  Whether a record is refused is a matter of the record, since no
    worker sees all of them. -/
structure Closure (T E : Type) where
  init : T
  refuses : Record → Option E
  fold : T → Record → T
  /-- the conversion of an error of the parser -/
  ofError : ErrorKind → Location → E
  ofConfiguration : String → E

/-- What a call comes to.  `aborted` is a panic, of the call or of a worker that
    it joins. -/
inductive Outcome (T E : Type) where
  | done (accumulators : List T)
  | failed (error : E)
  | aborted (fault : Fault)
  deriving DecidableEq, Repr

namespace Closure

variable {T E : Type} (c : Closure T E)

/-- A failure of the parser, as the caller sees it. -/
def outcome : Failure → Outcome T E
  | .parse (.error kind location) => .failed (c.ofError kind location)
  | .parse fault => .aborted fault
  | .configuration detail => .failed (c.ofConfiguration detail)

/-- The error that a record ends a run with, and the byte it belongs to. -/
def failure : Except Fault Record → Option (ℕ × E)
  | .ok r => (c.refuses r).map (r.start, ·)
  | .error (.error kind location) => some (location.byte, c.ofError kind location)
  | .error _ => none

end Closure

namespace ParallelParser

variable (p : ParallelParser) (input : Bytes)

/-- `check_splittable`: why a document of this format cannot be split. -/
def checkSplittable : Option String :=
  let o := p.cfg
  if o.dialect.comment.isSome then
    some "parallel parsing cannot split a format with comments"
  else if o.dialect.escape ≠ .doubleQuote then
    some "parallel parsing cannot split a format escaping with anything but doubled quotes"
  else if o.dialect.multibyte then
    some "parallel parsing cannot split a format with multi-byte separators"
  else if !o.syntax'.quotingEnabled then
    some "parallel parsing cannot split a format with quoting disabled"
  else if o.syntax'.permitsUnquotedQuotes then
    some "parallel parsing cannot split a format permitting bare quotes in unquoted fields"
  else if o.blankRecords = .skip then
    some "parallel parsing cannot split a format that skips blank records"
  else none

/-- The field count of the first record, where every record must match it. -/
def settleFieldCount (probe : Engine) : Except Fault FieldCount :=
  if p.cfg.fieldCount = .matchFirst then
    match SliceParser.nextRecord p.cfg p.F input probe with
    | .ok (some record) _ => .ok (.exact record.fields.length)
    | .ok none _ => .ok .flexible
    | .error fault _ => .error fault
  else .ok p.cfg.fieldCount

/-- `prepare`: the options the workers parse with, and the first record. -/
def prepare : Except Fault (ParserSettings × Boundary) :=
  match SliceParser.build p.cfg input with
  | .error fault => .error fault
  | .ok probe =>
    match SliceParser.headers p.cfg input probe with
    | .error fault _ => .error fault
    | .ok headers probe =>
      match p.settleFieldCount input probe with
      | .error fault => .error fault
      | .ok fieldCount =>
        .ok ({ p.cfg with headers := headers.elim .none .provided, fieldCount },
          SliceParser.location input probe)

/-- `uses_serial_fallback`. -/
def usesSerialFallback (start : Boundary) : Bool :=
  p.threads == 1 || input.length - start.byte < p.threshold

/-- `CHUNKS_PER_THREAD`. -/
def chunksPerThread : ℕ := 16

/-- The chunks of a run, from `requested_chunks`. -/
def chunks (start : Boundary) : List Boundary :=
  Split.boundaries p.cfg.dialect input start (p.threads * chunksPerThread)

/-- `active_workers`. -/
def activeWorkers (start : Boundary) : ℕ := ((p.chunks input start).take p.threads).length

end ParallelParser

/-! ## The serial run -/

namespace SliceParser

variable {T E : Type} (cfg : ParserSettings) (F : CsvFormat) (input : Bytes) (c : Closure T E)

/-- The loop of the serial fallback. -/
def foldFrom : (fuel : ℕ) → T → Engine → Outcome T E
  | 0, _, _ => .aborted .stuck
  | fuel + 1, acc, e =>
    match nextRecord cfg F input e with
    | .error fault _ => c.outcome (.parse fault)
    | .ok none _ => .done [acc]
    | .ok (some record) e =>
      match c.refuses record with
      | some error => .failed error
      | none => foldFrom fuel (c.fold acc record) e

/-- The serial fallback of `for_each_record` and `fold`. -/
def foldAll (start : Boundary) : Outcome T E :=
  match build cfg input with
  | .error fault => c.outcome (.parse fault)
  | .ok e =>
    match seek cfg input start e with
    | .error failure => c.outcome failure
    | .ok e => foldFrom cfg F input c (input.length + 1) c.init e

end SliceParser

/-! ## The workers -/

/-- What threads share: the chunk cursor, and every value that the fence has had
    since it was lowered first. -/
structure Shared where
  cursor : ℕ
  barrier : List ℕ

namespace Shared

variable (shared : Shared)

/-- The next chunk is claimed. -/
def claim : Shared := { shared with cursor := shared.cursor + 1 }

/-- `fence`: `fetch_min` on the value the fence has. -/
def fence (offset : ℕ) : Shared :=
  { shared with barrier := shared.barrier ++ [shared.barrier.getLast?.elim offset (min · offset)] }

end Shared

/-- A thread of `worker`. -/
inductive Worker (T E : Type) where
  /-- about to claim a chunk -/
  | claiming (parser : Engine) (acc : T)
  /-- about to read the next record of a chunk that ends at `stop` -/
  | reading (parser : Engine) (stop : ℕ) (acc : T)
  /-- about to look at the fence with a record that was read -/
  | holding (parser : Engine) (stop : ℕ) (acc : T) (record : Record)
  /-- about to publish a failure -/
  | fencing (acc : T) (offset : ℕ) (error : E)
  | returned (acc : T) (failure : Option (ℕ × E))
  | aborted (fault : Fault)

/-- `is_fenced`, of a fence that no failure has lowered while it is `none`
    (`NO_FAILURE`). -/
def isFenced (start : ℕ) (barrier : Option ℕ) : Bool := barrier.any (start ≥ ·)

namespace Worker

variable {T E : Type} (cfg : ParserSettings) (F : CsvFormat) (input : Bytes) (c : Closure T E)
  (chunks : List Boundary)

/-- A failure of the parser at `offset`. -/
def ofFailure (acc : T) (offset : ℕ) : Failure → Worker T E
  | .parse (.error kind location) => .fencing acc offset (c.ofError kind location)
  | .parse fault => .aborted fault
  | .configuration detail => .fencing acc offset (c.ofConfiguration detail)

/-- A worker when it is spawned. -/
def spawn : Worker T E :=
  match SliceParser.build cfg input with
  | .ok parser => .claiming parser c.init
  | .error (.error kind location) => .returned c.init (some (0, c.ofError kind location))
  | .error fault => .aborted fault

/-- The chunk that a worker has claimed. -/
def claim (index : ℕ) (parser : Engine) (acc : T) : Worker T E :=
  match chunks[index]? with
  | none => .returned acc none
  | some start =>
    let stop := (chunks[index + 1]?).elim input.length (·.byte)
    match SliceParser.seek cfg input start parser with
    | .error failure => ofFailure c acc start.byte failure
    | .ok parser => .reading parser stop acc

/-- The next record of a chunk.  An error of `next_line` ends the chunk, one of
    the record is the failure of the worker. -/
def read (parser : Engine) (stop : ℕ) (acc : T) : Worker T E :=
  match Engine.advance cfg F input parser with
  | .error (.error _ _) parser => .claiming parser acc
  | .error fault _ => .aborted fault
  | .ok false parser => .claiming parser acc
  | .ok true parser =>
    match Engine.record cfg F input parser with
    | .ok record parser => .holding parser stop acc record
    | .error (.error kind location) _ => .fencing acc location.byte (c.ofError kind location)
    | .error fault _ => .aborted fault

/-- A record that was read, under a value of the fence. -/
def take (parser : Engine) (stop : ℕ) (acc : T) (record : Record) (barrier : Option ℕ) :
    Worker T E :=
  if isFenced record.start barrier then .claiming parser acc
  else
    match c.refuses record with
    | some error => .fencing acc record.start error
    | none =>
      if record.stop ≥ stop then .claiming parser (c.fold acc record)
      else .reading parser stop (c.fold acc record)

/-- One step of a thread, if it has not ended.  Where it looks at the fence it sees
    the value with the index `seen`. -/
def step (seen : ℕ) (shared : Shared) : Worker T E → Option (Shared × Worker T E)
  | claiming parser acc => some (shared.claim, claim cfg input c chunks shared.cursor parser acc)
  | reading parser stop acc => some (shared, read cfg F input c parser stop acc)
  | holding parser stop acc record =>
    some (shared, take c parser stop acc record shared.barrier[seen]?)
  | fencing acc offset error => some (shared.fence offset, returned acc (some (offset, error)))
  | returned .. | aborted _ => none

/-- The panic of a thread. -/
def fault? : Worker T E → Option Fault
  | aborted fault => some fault
  | _ => none

/-- Whether the thread has ended. -/
def finished : Worker T E → Bool
  | returned .. | aborted .. => true
  | _ => false

end Worker

/-! ## The system -/

/-- The threads and what they share. -/
abbrev System (T E : Type) := Pool.State Shared (Worker T E)

/-- A thread takes a step.  Where it looks at the fence it sees the value with
    the index `seen`: relaxed loads may be stale by any amount. -/
abbrev Action := Pool.Action ℕ

namespace System

variable {T E : Type} (cfg : ParserSettings) (F : CsvFormat) (input : Bytes) (c : Closure T E)
  (chunks : List Boundary)

/-- One step of one thread. -/
def step : System T E → Action → Option (System T E) :=
  Pool.step (Worker.step cfg F input c chunks)

/-- The steps of a schedule. -/
def run : List Action → System T E → Option (System T E) :=
  Schedule.run (step cfg F input c chunks)

/-- The system when its threads are spawned. -/
def spawn (workers : ℕ) : System T E :=
  ⟨⟨0, []⟩, List.replicate workers (Worker.spawn cfg input c)⟩

/-- The failure that `drive` keeps of two (`failure_is_earlier`). -/
def keep (earliest : Option (ℕ × E)) (w : Worker T E) : Option (ℕ × E) :=
  match w, earliest with
  | .returned _ (some failure), none => some failure
  | .returned _ (some failure), some kept => if failure.1 < kept.1 then some failure else some kept
  | _, kept => kept

/-- The accumulator of a worker that has returned. -/
def accumulator? : Worker T E → Option T
  | .returned acc _ => some acc
  | _ => none

/-- What `drive` returns once every thread has ended. -/
def outcome (s : System T E) : Option (Outcome T E) :=
  if s.workers.all Worker.finished then
    match s.workers.findSome? Worker.fault? with
    | some fault => some (.aborted fault)
    | none =>
      match s.workers.foldl keep none with
      | some (_, error) => some (.failed error)
      | none => some (.done (s.workers.filterMap accumulator?))
  else none

end System

namespace ParallelParser

variable {T E : Type} (p : ParallelParser) (input : Bytes) (c : Closure T E)

/-- What `for_each_record` and `fold` may return: `for_each_record` folds into
    nothing. -/
inductive Returns : Outcome T E → Prop where
  | unsplittable {detail : String} (h : p.checkSplittable = some detail) :
    Returns (.failed (c.ofConfiguration detail))
  | unprepared {fault : Fault} (hs : p.checkSplittable = none)
      (h : p.prepare input = .error fault) : Returns (c.outcome (.parse fault))
  | serial {cfg : ParserSettings} {start : Boundary} (hs : p.checkSplittable = none)
      (hp : p.prepare input = .ok (cfg, start)) (h : p.usesSerialFallback input start = true) :
    Returns (SliceParser.foldAll cfg p.F input c start)
  | threads {cfg : ParserSettings} {start : Boundary} {schedule : List Action} {s : System T E}
      {outcome : Outcome T E} (hs : p.checkSplittable = none)
      (hp : p.prepare input = .ok (cfg, start)) (h : p.usesSerialFallback input start = false)
      (hrun : System.run cfg p.F input c (p.chunks input start) schedule
        (System.spawn cfg input c (p.activeWorkers input start)) = some s)
      (houtcome : s.outcome = some outcome) : Returns outcome

/-- What the serial run of the closure returns. -/
def serial : Outcome T E :=
  match p.checkSplittable with
  | some detail => .failed (c.ofConfiguration detail)
  | none =>
    match p.prepare input with
    | .error fault => c.outcome (.parse fault)
    | .ok (cfg, start) => SliceParser.foldAll cfg p.F input c start

end ParallelParser

end Coseva
