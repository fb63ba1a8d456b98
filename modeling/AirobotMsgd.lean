import AirobotMsgd.Core.Runs
import AirobotMsgd.Core.Bytes
import AirobotMsgd.Core.HttpText
import AirobotMsgd.Core.HttpStream
import AirobotMsgd.Core.StringMap
import AirobotMsgd.Core.Ring
import AirobotMsgd.Core.Double
import AirobotMsgd.Json.Json11
import AirobotMsgd.Core.JsonText
import AirobotMsgd.Core.Decimal
import AirobotMsgd.Core.Lexicographic
import AirobotMsgd.Core.Locks
import AirobotMsgd.Json.Tokens
import AirobotMsgd.Json.Unicode
import AirobotMsgd.Json.Accepts
import AirobotMsgd.Json.Ids
import AirobotMsgd.Json.Dump
import AirobotMsgd.Json.Compare
import AirobotMsgd.Json.Streams
import AirobotMsgd.Wire.Reply
import AirobotMsgd.Wire.ReplyStream
import AirobotMsgd.Wire.Connection
import AirobotMsgd.Http.HttpParser
import AirobotMsgd.Http.HeaderLookup
import AirobotMsgd.Http.Indexes
import AirobotMsgd.Http.RoundTrip
import AirobotMsgd.Wire.BackendWire
import AirobotMsgd.Front.FrontWire
import AirobotMsgd.Front.FrontConn
import AirobotMsgd.Front.Reading
import AirobotMsgd.Front.Isolation
import AirobotMsgd.Front.Refusals
import AirobotMsgd.Front.Requests
import AirobotMsgd.Front.Service
import AirobotMsgd.Client.ReadFrom
import AirobotMsgd.Client.Segments
import AirobotMsgd.Client.TimedOps
import AirobotMsgd.Backend.BackendConn
import AirobotMsgd.Backend.BackendServer
import AirobotMsgd.Backend.Selection
import AirobotMsgd.Server.FrontServer
import AirobotMsgd.Server.Handlers
import AirobotMsgd.Server.Registry
import AirobotMsgd.Server.Recycling
import AirobotMsgd.Server.TimingWheel
import AirobotMsgd.Server.IdleRemoval
import AirobotMsgd.Server.PendingCached
import AirobotMsgd.Server.Sessions
import AirobotMsgd.Server.ManageWait
import AirobotMsgd.Server.LockOrder
import AirobotMsgd.Server.Report
import AirobotMsgd.Server.Relay
import AirobotMsgd.Server.Messages
import AirobotMsgd.Server.OneRead
import AirobotMsgd.Server.Loops
