import FreeFlow.Found.ByteMem
import FreeFlow.Found.Run
import FreeFlow.Found.Ring
import FreeFlow.Verbs.Layout
import FreeFlow.Client.PostSend
import FreeFlow.Client.RecvRing
import FreeFlow.Router.PostSend
import FreeFlow.Wire.PostSend
import FreeFlow.Hosts.RkeyMap
import FreeFlow.Channel.Exchange
import FreeFlow.Router.CqPass
import FreeFlow.Router.HandleRequest
import FreeFlow.Router.Reads
import FreeFlow.Wire.Framing
import FreeFlow.Router.Isolation
import FreeFlow.Router.Registry
import FreeFlow.Router.ShmNames
import FreeFlow.Client.Regions
import FreeFlow.Client.Registration
import FreeFlow.Client.Incoming
import FreeFlow.Client.Arrived
import FreeFlow.Client.RingHistory
import FreeFlow.Client.PostRecv
import FreeFlow.Router.PostRecv
import FreeFlow.Wire.PostRecv
import FreeFlow.Router.Origins
import FreeFlow.Wire.RemoteAccess
import FreeFlow.Wire.PostHistory
import FreeFlow.Wire.BadWr
import FreeFlow.Client.CqSrq
import FreeFlow.Found.Proc
import FreeFlow.Found.ReadLoop
import FreeFlow.Router.Objects
import FreeFlow.Router.ObjectEffects
import FreeFlow.Router.FailedDestroy
import FreeFlow.Router.Accesses
import FreeFlow.Router.Aliases
import FreeFlow.Wire.ReplyLoop
import FreeFlow.Wire.CreateQp
import FreeFlow.Channel.PollResult
import FreeFlow.Channel.Bounds
import FreeFlow.Found.Meter
import FreeFlow.Router.TokenBucket
import FreeFlow.Router.TokenWait
import FreeFlow.Hosts.UdpServer
import FreeFlow.Hosts.MappingAck
import FreeFlow.Wire.EventChannels
import FreeFlow.Client.MemPool
import FreeFlow.Router.SocketFds
import FreeFlow.Client.FlowCommand
import FreeFlow.Wire.FixedFields
import FreeFlow.Wire.MrSize
import FreeFlow.Found.DecimalText
import FreeFlow.Router.VipMap
import FreeFlow.Router.PieceNames
import FreeFlow.Client.SlotMemory
import FreeFlow.Found.ByteOrder
import FreeFlow.Found.Circular
import FreeFlow.Found.Leads
import FreeFlow.RSocket.Arrival
import FreeFlow.RSocket.Closing
import FreeFlow.RSocket.Credits
import FreeFlow.Fork.Sound
