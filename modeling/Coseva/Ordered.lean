/-
  Coseva — the ordered mode of the parallel parser (`coseva/src/parallel.rs`): threads that
  parse the chunks they are dealt, and send batches of records to the calling thread, which
  drains their queues in the order of the chunks.

  * `BatchParser.chunkLoop`: the batches of one chunk;
  * `BatchWorker.move`: what a thread does next;
  * `Drain.take`: what the calling thread does with a message;
  * `BatchParser.network`: the threads, their queues and the calling thread;
  * `BatchParser.Delivers`: what `for_each_batch` may come to, under any schedule, and
    `BatchParser.inOrder`: the chunks parsed one behind the other.
-/
import Coseva.Lib.Channels
import Coseva.OwnedRead
import Coseva.Parallel

namespace Coseva

open Channels

/-! ## The parser -/

/-- `ParallelParser`, with the number of records in a batch. -/
structure BatchParser extends ParallelParser where
  batchRecords : ℕ
  batchRecords_pos : 0 < batchRecords

/-- What a caller of `for_each_batch` hands over: what becomes of a batch, in what it has seen so
    far, and the error that it is refused with. -/
structure BatchClosure (T E : Type) where
  init : T
  consume : T → List OwnedRecord → T × Option E
  /-- the conversion of an error of the parser -/
  ofError : ErrorKind → Location → E
  ofConfiguration : String → E

/-- What a call comes to: what the closure has seen by then, and the error that is returned, or a
    panic. -/
inductive Delivery (T E : Type) where
  | returned (seen : T) (error : Option E)
  | aborted (seen : T) (fault : Fault)
  deriving DecidableEq, Repr

/-- What the closure has seen. -/
def Delivery.seen {T E : Type} : Delivery T E → T
  | returned seen _ => seen
  | aborted seen _ => seen

namespace BatchClosure

variable {T E : Type} (c : BatchClosure T E)

/-- A failure of the parser, behind what has been seen. -/
def outcome (seen : T) : Failure → Delivery T E
  | .parse (.error kind location) => .returned seen (some (c.ofError kind location))
  | .parse fault => .aborted seen fault
  | .configuration detail => .returned seen (some (c.ofConfiguration detail))

/-- Batches that are consumed up to one that is refused. -/
def consumeAll : T → List (List OwnedRecord) → T × Option E
  | seen, [] => (seen, none)
  | seen, batch :: batches =>
    match c.consume seen batch with
    | (seen, none) => consumeAll seen batches
    | refused => refused

end BatchClosure

/-! ## One chunk -/

/-- How the parse of a chunk ends. -/
inductive ChunkEnd where
  | done (parser : Engine)
  | failed (failure : Failure)

/-- What comes next in a chunk. -/
inductive Upcoming where
  | ended (parser : Engine)
  | record (record : OwnedRecord) (parser : Engine)
  | failed (fault : Fault)

namespace BatchParser

variable (p : BatchParser) (cfg : ParserSettings) (input : Bytes)

/-- `next_line` and `read_byte_record_into`: an error of the first ends the chunk. -/
def upcoming (parser : Engine) : Upcoming :=
  match Engine.advance cfg p.F input parser with
  | .ok false parser => .ended parser
  | .error (.error _ _) parser => .ended parser
  | .error fault _ => .failed fault
  | .ok true parser =>
    match Engine.readByteRecordInto cfg p.F input parser with
    | .ok record parser => .record record parser
    | .error fault _ => .failed fault

/-- The batch that is left, if it holds a record. -/
def flush (batch : List OwnedRecord) : List (List OwnedRecord) := if batch = [] then [] else [batch]

/-- The loop of `parse_chunk`: the batches that it emits while none is refused.  A panic takes the
    batch with it. -/
def chunkLoop (stop : ℕ) : (fuel : ℕ) → List OwnedRecord → Engine → List (List OwnedRecord) × ChunkEnd
  | 0, _, _ => ([], .failed (.parse .stuck))
  | fuel + 1, batch, parser =>
    match p.upcoming cfg input parser with
    | .ended parser => (flush batch, .done parser)
    | .failed (.error kind location) => (flush batch, .failed (.parse (.error kind location)))
    | .failed fault => ([], .failed (.parse fault))
    | .record record parser =>
      let batch := batch ++ [record]
      if record.stop ≥ stop then ([batch], .done parser)
      else if batch.length ≥ p.batchRecords then
        let rest := chunkLoop stop fuel [] parser
        (batch :: rest.1, rest.2)
      else chunkLoop stop fuel batch parser

/-- `parse_chunk`. -/
def parseChunk (start : Boundary) (stop : ℕ) (parser : Engine) : List (List OwnedRecord) × ChunkEnd :=
  match SliceParser.seek cfg input start parser with
  | .error failure => ([], .failed failure)
  | .ok parser => p.chunkLoop cfg input stop (input.length + 1) [] parser

/-- `ChunkEnd`: where the chunk with this index ends. -/
def chunkStop (chunks : List Boundary) (index : ℕ) : ℕ := (chunks[index + 1]?).elim input.length (·.byte)

end BatchParser

/-! ## The threads -/

/-- `Message`. -/
inductive Message where
  | batch (records : List OwnedRecord)
  | chunkDone
  | failed (failure : Failure)
  deriving DecidableEq, Repr

/-- What a thread does behind a batch. -/
inductive AfterBatch where
  /-- the next record of the chunk -/
  | more
  /-- the chunk is done -/
  | done
  | failed (failure : Failure)

/-- A thread of `run_worker`. -/
inductive BatchWorker where
  /-- about to parse the chunk with this index -/
  | opening (parser : Engine) (index : ℕ)
  /-- about to read the next record of the chunk -/
  | reading (parser : Engine) (index : ℕ) (batch : List OwnedRecord)
  /-- about to send a batch -/
  | emitting (parser : Engine) (index : ℕ) (batch : List OwnedRecord) (behind : AfterBatch)
  /-- about to say that the chunk is done -/
  | closing (parser : Engine) (index : ℕ)
  /-- about to report a failure -/
  | failing (failure : Failure)
  | returned
  | aborted (fault : Fault)

namespace BatchWorker

variable (p : BatchParser) (cfg : ParserSettings) (input : Bytes) (chunks : List Boundary) (threads : ℕ)

/-- A failure of the parser: a panic is one of the thread. -/
def ofFailure : Failure → BatchWorker
  | .parse (.error kind location) => .failing (.parse (.error kind location))
  | .parse fault => .aborted fault
  | .configuration detail => .failing (.configuration detail)

/-- The worker with this index when it is spawned. -/
def spawn (index : ℕ) : BatchWorker :=
  match SliceParser.build cfg input with
  | .ok parser => .opening parser index
  | .error fault => ofFailure (.parse fault)

/-- The chunk that a worker has come to. -/
def openChunk (start : Boundary) (index : ℕ) (parser : Engine) : BatchWorker :=
  match SliceParser.seek cfg input start parser with
  | .error failure => ofFailure failure
  | .ok parser => .reading parser index []

/-- A worker whose batch has been taken. -/
def sent (parser : Engine) (index : ℕ) : AfterBatch → BatchWorker
  | .more => .reading parser index []
  | .done => .closing parser index
  | .failed failure => .failing failure

/-- The records that are left are sent, if there are any. -/
def finish (parser : Engine) (index : ℕ) (batch : List OwnedRecord) (behind : AfterBatch) : BatchWorker :=
  if batch = [] then sent parser index behind else .emitting parser index batch behind

/-- The next record of a chunk. -/
def read (parser : Engine) (index : ℕ) (batch : List OwnedRecord) : BatchWorker :=
  match p.upcoming cfg input parser with
  | .ended parser => finish parser index batch .done
  | .failed (.error kind location) =>
    -- `emit_before_error`
    finish parser index batch (.failed (.parse (.error kind location)))
  | .failed fault => .aborted fault
  | .record record parser =>
    let batch := batch ++ [record]
    if record.stop ≥ BatchParser.chunkStop input chunks index then .emitting parser index batch .done
    else if batch.length ≥ p.batchRecords then .emitting parser index batch .more
    else .reading parser index batch

/-- What a worker does next. -/
def move : BatchWorker → Move BatchWorker Message
  | opening parser index =>
    match chunks[index]? with
    | none => .halt
    | some start => .work (openChunk cfg input start index parser)
  | reading parser index batch => .work (read p cfg input chunks parser index batch)
  | emitting parser index batch behind => .send (.batch batch) (sent parser index behind)
  | closing parser index => .send .chunkDone (opening parser (index + threads))
  | failing failure => .send (.failed failure) returned
  | returned => .halt
  | aborted _ => .halt

/-- A worker whose message nobody takes: behind a batch it says that the chunk is done, and then it
    returns. -/
def refused : BatchWorker → BatchWorker
  | emitting parser index _ _ => closing parser index
  | _ => returned

/-- The panic of a thread. -/
def fault? : BatchWorker → Option Fault
  | aborted fault => some fault
  | _ => none

end BatchWorker

/-! ## The calling thread -/

/-- The calling thread in `drain`. -/
inductive Drain (T E : Type) where
  | draining (chunk : ℕ) (seen : T)
  | returned (seen : T) (error : Option E)
  deriving DecidableEq, Repr

namespace Drain

variable {T E : Type} (c : BatchClosure T E) (chunks threads : ℕ)

/-- The queue that is drained: the chunks were dealt round-robin. -/
def awaits : Drain T E → Option ℕ
  | draining chunk _ => if chunk < chunks then some (chunk % threads) else none
  | returned _ _ => none

/-- A message, or the end of a queue that nobody sends to any more. -/
def take : Drain T E → Option Message → Drain T E
  | draining chunk seen, some (.batch records) =>
    match c.consume seen records with
    | (seen, none) => draining chunk seen
    | (seen, some error) => returned seen (some error)
  | draining chunk seen, some .chunkDone => draining (chunk + 1) seen
  | draining _ seen, some (.failed (.parse (.error kind location))) =>
    returned seen (some (c.ofError kind location))
  | draining _ seen, some (.failed (.configuration detail)) =>
    returned seen (some (c.ofConfiguration detail))
  | draining _ seen, some (.failed (.parse _)) => returned seen none
  | draining _ seen, none => returned seen none
  | returned seen error, _ => returned seen error

/-- What `drain` returns, with what the closure has seen. -/
def result : Drain T E → T × Option E
  | draining _ seen => (seen, none)
  | returned seen error => (seen, error)

end Drain

/-! ## The system -/

namespace BatchParser

variable {T E : Type} (p : BatchParser) (cfg : ParserSettings) (input : Bytes) (c : BatchClosure T E)
  (chunks : List Boundary)

/-- `QUEUE_DEPTH`. -/
def queueDepth : ℕ := 4

/-- The threads, their queues and the calling thread. -/
def network (threads : ℕ) : Network BatchWorker Message (Drain T E) where
  move := BatchWorker.move p cfg input chunks threads
  refused := BatchWorker.refused
  awaits := Drain.awaits chunks.length threads
  take := Drain.take c
  depth := queueDepth

/-- The system when its threads are spawned. -/
def spawned (threads : ℕ) : State BatchWorker Message (Drain T E) :=
  spawn ((List.range threads).map (BatchWorker.spawn cfg input)) (.draining 0 c.init)

/-- What the call comes to once every thread is joined: a thread that panics makes the call panic,
    when what it would return is known. -/
def joined (s : State BatchWorker Message (Drain T E)) : Delivery T E :=
  match s.producers.findSome? fun w => w.1.fault? with
  | some fault => .aborted s.consumer.result.1 fault
  | none => .returned s.consumer.result.1 s.consumer.result.2

/-! ## The chunks in their order -/

/-- The chunks from one on, parsed by one thread: each with the parser of the worker that it is
    dealt to. -/
def chunksFrom (threads : ℕ) : (left chunk : ℕ) → List Engine → T → Delivery T E
  | 0, _, _, seen => .returned seen none
  | left + 1, chunk, parsers, seen =>
    match chunks[chunk]?, parsers[chunk % threads]? with
    | some start, some parser =>
      let (batches, last) := p.parseChunk cfg input start (chunkStop input chunks chunk) parser
      match c.consumeAll seen batches, last with
      | (seen, some error), _ => .returned seen (some error)
      | (seen, none), .failed failure => c.outcome seen failure
      | (seen, none), .done parser =>
        chunksFrom threads left (chunk + 1) (parsers.set (chunk % threads) parser) seen
    | _, _ => .returned seen none

/-- The whole document as one chunk, of a parser of its own (the serial fallback). -/
def wholeDocument (start : Boundary) : Delivery T E :=
  match SliceParser.build cfg input with
  | .error fault => c.outcome c.init (.parse fault)
  | .ok parser =>
    let (batches, last) := p.parseChunk cfg input start input.length parser
    match c.consumeAll c.init batches, last with
    | (seen, some error), _ => .returned seen (some error)
    | (seen, none), .failed failure => c.outcome seen failure
    | (seen, none), .done _ => .returned seen none

/-- Every chunk, in the order of the document. -/
def allChunks (threads : ℕ) : Delivery T E :=
  match SliceParser.build cfg input with
  | .error fault => c.outcome c.init (.parse fault)
  | .ok parser => p.chunksFrom cfg input c chunks threads chunks.length 0 (List.replicate threads parser) c.init

/-! ## `for_each_batch` -/

/-- What `for_each_batch` may come to. -/
inductive Delivers : Delivery T E → Prop where
  | unsplittable {detail : String} (h : p.checkSplittable = some detail) :
    Delivers (.returned c.init (some (c.ofConfiguration detail)))
  | unprepared {fault : Fault} (hs : p.checkSplittable = none)
      (h : p.prepare input = .error fault) : Delivers (c.outcome c.init (.parse fault))
  | serial {cfg : ParserSettings} {start : Boundary} (hs : p.checkSplittable = none)
      (hp : p.prepare input = .ok (cfg, start)) (h : p.usesSerialFallback input start = true) :
    Delivers (p.wholeDocument cfg input c start)
  | threads {cfg : ParserSettings} {start : Boundary} {schedule : List Channels.Action}
      {s : State BatchWorker Message (Drain T E)} (hs : p.checkSplittable = none)
      (hp : p.prepare input = .ok (cfg, start)) (h : p.usesSerialFallback input start = false)
      (hrun : Channels.run (p.network cfg input c (p.chunks input start) (p.activeWorkers input start))
        schedule (spawned cfg input c (p.activeWorkers input start)) = some s)
      (hfinished : Finished (p.network cfg input c (p.chunks input start) (p.activeWorkers input start)) s) :
    Delivers (joined s)

/-- The call without threads: the chunks that there would be, in their order. -/
def inOrder : Delivery T E :=
  match p.checkSplittable with
  | some detail => .returned c.init (some (c.ofConfiguration detail))
  | none =>
    match p.prepare input with
    | .error fault => c.outcome c.init (.parse fault)
    | .ok (cfg, start) =>
      if p.usesSerialFallback input start then p.wholeDocument cfg input c start
      else p.allChunks cfg input c (p.chunks input start) (p.activeWorkers input start)

end BatchParser

end Coseva
