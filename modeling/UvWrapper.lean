import UvWrapper.Lib.Trace
import UvWrapper.Lib.Handoff
import UvWrapper.Net.SendPath
import UvWrapper.Net.SendPathProofs
import UvWrapper.Net.SendPathPost
import UvWrapper.Net.SendPathOrder
import UvWrapper.Net.ServerSend
import UvWrapper.Net.ServerIsolation
import UvWrapper.Net.UdpSend
import UvWrapper.Net.ClientSend
import UvWrapper.Net.ServerDisconnect
import UvWrapper.Net.Forward
import UvWrapper.Net.ForwardGraph
import UvWrapper.Net.ByteStream
import UvWrapper.Net.SendClose
import UvWrapper.Lib.Handle
import UvWrapper.Lib.Links
import UvWrapper.Lib.Memory
import UvWrapper.Lib.Termios
import UvWrapper.Lib.WaitGraph
import UvWrapper.Net.ServerLife
import UvWrapper.Net.ServerLifeProofs
import UvWrapper.Net.ServerClose
import UvWrapper.Net.ServerSessions
import UvWrapper.Net.ServerSendAll
import UvWrapper.Net.ServerDrain
import UvWrapper.Net.ServerRelease
import UvWrapper.Net.ClientLife
import UvWrapper.Net.ClientClose
import UvWrapper.Net.UdpLife
import UvWrapper.Net.UdpClose
import UvWrapper.Component.Relay
import UvWrapper.Component.RelayDeadlock
import UvWrapper.Component.RelayProofs
import UvWrapper.Component.RelayBytes
import UvWrapper.Utils.MsgQueue
import UvWrapper.Utils.MsgQueueProofs
import UvWrapper.Utils.MsgQueueDelivery
import UvWrapper.Utils.MsgQueueDestroy
import UvWrapper.Utils.MsgQueueSpin
import UvWrapper.Utils.MsgQueueShare
import UvWrapper.Component.Shutdown
import UvWrapper.Component.ShutdownSafety
import UvWrapper.Component.ShutdownHang
import UvWrapper.Net.Echo
import UvWrapper.Net.Broadcast
import UvWrapper.Net.BroadcastProofs
import UvWrapper.Net.ClientCallbacks
import UvWrapper.Net.SendReport
import UvWrapper.Net.Address
import UvWrapper.Net.UdpAddress
import UvWrapper.Net.Endpoint
import UvWrapper.Utils.PrintInHex
import UvWrapper.Utils.EventLoop
import UvWrapper.Utils.Queue
import UvWrapper.Net.ClientAddr
import UvWrapper.Net.ServerQueue
import UvWrapper.Net.ServerWalk
import UvWrapper.Serial.SerialLife
import UvWrapper.Serial.SerialOpt
import UvWrapper.Serial.SerialRead
import UvWrapper.Serial.SerialSend
import UvWrapper.Component.RelayRest
