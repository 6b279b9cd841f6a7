import WingPhp.Lib.Machine
import WingPhp.Lib.CArray
import WingPhp.Lib.Channel
import WingPhp.Basic
import WingPhp.Sclient.Pool
import WingPhp.Lib.Position
import WingPhp.Lib.LinkedQueue
import WingPhp.MessageQueue
import WingPhp.Sclient.Order
import WingPhp.Sclient.Reuse
import WingPhp.Sclient.Ownership
import WingPhp.Iocp.Defs
import WingPhp.Iocp.Callback
import WingPhp.Iocp.Server
import WingPhp.Iocp.Steps
import WingPhp.Iocp.Contexts
import WingPhp.Iocp.Dispatch
import WingPhp.Iocp.Outstanding
import WingPhp.Iocp.Retire
import WingPhp.Iocp.Receive
import WingPhp.Iocp.LastError
import WingPhp.Iocp.Objects
import WingPhp.Select.Defs
import WingPhp.Select.Server
import WingPhp.Select.Steps
import WingPhp.Lib.Roster
import WingPhp.Select.Registry
import WingPhp.Select.Poll
import WingPhp.Select.CloseList
import WingPhp.Select.Disconnects
import WingPhp.Select.Events
import WingPhp.Lib.Custody
import WingPhp.Select.Items
import WingPhp.Select.Payload
import WingPhp.Select.Pass
import WingPhp.Select.Startup
import WingPhp.Select.RecvLoop
import WingPhp.Lib.SkipScan
import WingPhp.Select.CloseScan
import WingPhp.Reuse
import WingPhp.Lib.Ascii
import WingPhp.Lib.Memory
import WingPhp.Lib.WideChar
import WingPhp.WingString.Defs
import WingPhp.WingString.Append
import WingPhp.WingString.Trim
import WingPhp.WingString.Compare
import WingPhp.WingString.Invariant
import WingPhp.WingString.Readers
import WingPhp.WingString.Runs
import WingPhp.WingString.Mutators
import WingPhp.Lib.StreamCipher
import WingPhp.Encrypt.File
import WingPhp.Encrypt.Chunks
import WingPhp.Encrypt.Complete
import WingPhp.Encrypt.RunFile
import WingPhp.Lib.LateTest
import WingPhp.Process.Query
import WingPhp.Process.Count
import WingPhp.Process.Search
import WingPhp.Process.Matches
import WingPhp.Base.Env
import WingPhp.Lib.SearchPath
import WingPhp.Base.ModulePath
import WingPhp.Base.CommandPath
import WingPhp.Wmic
import WingPhp.Lib.NameTable
import WingPhp.Base.Override
import WingPhp.Lib.Strip
import WingPhp.WingString.TrimText
import WingPhp.WingString.Substr
import WingPhp.Lib.Decimal
import WingPhp.WingString.ToNumber
import WingPhp.WingString.Laws
import WingPhp.WingString.Values
import WingPhp.Lib.FrameFormat
import WingPhp.Simples.WebSocket
import WingPhp.Wmic.DecimalToString
import WingPhp.Wmic.Variant
import WingPhp.Encrypt.HardwareIds
import WingPhp.Encrypt.DzRun
import WingPhp.Lib.Calendar
import WingPhp.Simples.PhpText
import WingPhp.Simples.PhpTime
import WingPhp.Simples.Crontab
import WingPhp.Lib.PathWalk
import WingPhp.Simples.Http
import WingPhp.Simples.Lines
import WingPhp.Lib.KeyedStore
import WingPhp.Simples.HttpService
import WingPhp.Simples.HttpSession
import WingPhp.Simples.HttpMessage
import WingPhp.Simples.HttpCookie
import WingPhp.Simples.CrontabFile
import WingPhp.Simples.CrontabRun
import WingPhp.Encrypt.DzEncrypt
import WingPhp.Encrypt.Protected
import WingPhp.Select.Sockets
import WingPhp.Simples.WebSocketService
import WingPhp.MessageQueue.Clear
import WingPhp.Lib.Sextets
import WingPhp.Base64
import WingPhp.Lib.HandleTable
import WingPhp.Process.Kernel
import WingPhp.Process.Mutex
import WingPhp.Process.Instances
import WingPhp.Simples.ServiceControl
import WingPhp.Simples.ServiceRuns
import WingPhp.Simples.ServiceOrder
