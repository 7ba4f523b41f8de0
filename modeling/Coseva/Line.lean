/-
  Coseva — a line of a stream (`coseva/src/line.rs`): the record that a parser has advanced to, as
  its views read it, and the place that it has in the stream.
-/
import Coseva.Windowed

namespace Coseva

/-- `rebase`: an error of a window, as one of its stream. -/
def WindowFault.rebase (consumed : ℕ) : WindowFault → WindowFault
  | .fault (.error kind location) => .fault (.error kind { location with byte := consumed + location.byte })
  | .fault other => .fault other
  | .invalidUtf8 failure incomplete =>
    .invalidUtf8 { failure with location.byte := consumed + failure.location.byte } incomplete

/-- A panic of the source, and no error. -/
def WindowFault.panics : WindowFault → Bool
  | .fault .panic | .fault .stuck => true
  | .fault (.error _ _) | .invalidUtf8 _ _ => false

/-- `rebase_record`. -/
def OwnedRecord.rebase (consumed : ℕ) (record : OwnedRecord) : OwnedRecord :=
  { record with start := consumed + record.start, stop := consumed + record.stop }

/-- `Record::rebase`. -/
def Record.rebase (consumed : ℕ) (record : Record) : Record :=
  { record with start := consumed + record.start, stop := consumed + record.stop }

/-- A record that was read, in the caller's memory or in storage of its own. -/
inductive StreamRecord where
  | borrowed (record : Record)
  | owned (record : OwnedRecord)
  deriving DecidableEq, Repr

namespace StreamRecord

/-- The byte range and the index of the record. -/
def range : StreamRecord → ℕ × ℕ × ℕ
  | borrowed record => (record.start, record.stop, record.index)
  | owned record => (record.start, record.stop, record.index)

/-- A record of the window, as one of the stream. -/
def rebase (consumed : ℕ) : StreamRecord → StreamRecord
  | borrowed record => borrowed (record.rebase consumed)
  | owned record => owned (record.rebase consumed)

end StreamRecord

namespace Line

variable (cfg : ParserSettings) (F : CsvFormat)

/-- A view of the record. -/
inductive View where
  | record
  | byteRecord
  | textRecord
  deriving DecidableEq, Repr

/-- The call of a view on the engine. -/
def View.read (buffer : Bytes) : View → Window StreamRecord
  | record => .borrowed <$> Window.recordView cfg F buffer
  | byteRecord => .owned <$> Window.readByteView cfg F buffer
  | textRecord => .owned <$> Window.readTextView cfg F buffer

end Line

end Coseva
