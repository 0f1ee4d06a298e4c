import SysBytes.Control.Buffer
import SysBytes.Control.Record
import SysBytes.Fault
import SysBytes.Log.Event
import SysBytes.Log.Level
import SysBytes.Net.Address
import SysBytes.Net.Errno
import SysBytes.Net.Family
import SysBytes.Net.Ip
import SysBytes.Net.Names
import SysBytes.Net.Queue
import SysBytes.Net.Local
import SysBytes.Net.Message
import SysBytes.Path.Component
import SysBytes.Path.Error
import SysBytes.Path.FilePath
import SysBytes.Path.Normalize
import SysBytes.Path.View
import SysBytes.Report
import SysBytes.Session.Address
import SysBytes.Session.Control
import SysBytes.Session.Logged
import SysBytes.Session.Path
import SysBytes.Session.Request
import SysBytes.Session.Run
import SysBytes.Session.Shared
import SysBytes.Session.Small
import SysBytes.Session.Socket
import SysBytes.Store.Filler
import SysBytes.Store.Growth
import SysBytes.Store.Heap
import SysBytes.Store.Region
import SysBytes.Store.Small
import SysBytes.Text.GraphemeExtend
import SysBytes.Text.Hex
import SysBytes.Text.Printable
import SysBytes.Text.Quoted
import SysBytes.Text.Utf8
import SysBytes.Word
import SysBytes.Proofs.Control.Frames
import SysBytes.Proofs.Control.Append
import SysBytes.Proofs.Path.Edits
import SysBytes.Proofs.Control.Clones
import SysBytes.Proofs.Store.Values
import SysBytes.Proofs.Control.Sessions
import SysBytes.Proofs.Control.Reading
import SysBytes.Proofs.Path.Steps
import SysBytes.Proofs.Path.Walks
import SysBytes.Proofs.Store.Inline
import SysBytes.Proofs.Store.SmallSessions
import SysBytes.Proofs.Net.Records
import SysBytes.Proofs.Store.Owners
import SysBytes.Proofs.Store.SmallShapes
import SysBytes.Proofs.Control.Bounds
import SysBytes.Proofs.Path.Canonical
import SysBytes.Proofs.Path.Join
import SysBytes.Proofs.Path.Lexical
import SysBytes.Proofs.Path.RawOffsets
import SysBytes.Proofs.Path.Order
import SysBytes.Proofs.Net.PathRecords
import SysBytes.Proofs.Store.Growth
import SysBytes.Proofs.Control.Refill
import SysBytes.Proofs.Path.Extensions
import SysBytes.Proofs.Store.Sizes
import SysBytes.Proofs.Net.Receiving
