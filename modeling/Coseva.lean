import Coseva.EmitAgree
import Coseva.RoundTrip
import Coseva.UnorderedSerial
import Coseva.Cut
import Coseva.KernelAgree
import Coseva.CutRecord
import Coseva.IndexBuild
import Coseva.IndexPool
import Coseva.IndexSerial
import Coseva.QuotedBound
import Coseva.HeaderCache
import Coseva.PrescanResume
import Coseva.IoEmitterRun
import Coseva.Progress
import Coseva.IndexBuilt
import Coseva.PrescanDecides
import Coseva.SpanPacked
import Coseva.TextRecord
import Coseva.Search
import Coseva.Generate
import Coseva.Deserialize
import Coseva.IgnoredCut
import Coseva.FromBytes
import Coseva.RecordKernels
import Coseva.OwnedHistory
import Coseva.OrderedSerial
import Coseva.PushRun
import Coseva.IoRun
import Coseva.RefusedWindow
import Coseva.ReaderRun
