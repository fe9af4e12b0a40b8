import MTRpc.Lib.Exec
import MTRpc.Lib.Held
import MTRpc.Lib.PieceRing
import MTRpc.Lib.Scanner
import MTRpc.Mio.Buffer
import MTRpc.Mio.BufferRing
import MTRpc.Mio.BufferRuns
import MTRpc.Http.Text
import MTRpc.Http.Header
import MTRpc.Http.HeaderChunks
import MTRpc.Mio.Event
import MTRpc.Mio.MessageStream
import MTRpc.Rpc.ChannelImpl
import MTRpc.Rpc.ChannelRuns
import MTRpc.Rpc.RequestBoundary
import MTRpc.Rpc.ServerRuns
import MTRpc.Thread.Waiter
import MTRpc.Thread.WorkPool
import MTRpc.Common.SpinList
import MTRpc.Http.HeaderSerial
import MTRpc.Http.HeaderTokens
import MTRpc.Http.RequestRoundTrip
import MTRpc.Http.ResponseRoundTrip
import MTRpc.Http.ScratchBounds
import MTRpc.Lib.Touches
import MTRpc.Mio.ConnectStream
import MTRpc.Mio.Keeps
import MTRpc.Mio.References
import MTRpc.Rpc.ChannelTimers
import MTRpc.Rpc.RequestDispatch
import MTRpc.Rpc.ResponseHeaders
import MTRpc.Rpc.ServerControllers
import MTRpc.Rpc.StreamCounts
import MTRpc.Mio.BufferReset
import MTRpc.Mio.OutputStream
import MTRpc.Rpc.OneInFlight
import MTRpc.Rpc.SendAccounting
import MTRpc.Rpc.ErrorSeq
import MTRpc.Rpc.AfterError
import MTRpc.Rpc.ReceiveLoop
import MTRpc.Rpc.ChannelLife
import MTRpc.Rpc.EventOps
import MTRpc.Rpc.CallWakeup
import MTRpc.Mio.InputStream
import MTRpc.Mio.Reserve
import MTRpc.Http.SerializeBody
import MTRpc.Http.Resync
import MTRpc.Rpc.DeadSocket
import MTRpc.Mio.Timers
import MTRpc.Rpc.Backlog
import MTRpc.Thread.TaskSlot
import MTRpc.Thread.NoLockQueue
import MTRpc.Common.SpinLists
import MTRpc.Rpc.PacketAssembly
import MTRpc.Common.Covert
import MTRpc.Log.LogEntry
import MTRpc.Lib.CasLoop
import MTRpc.Common.Atomic
import MTRpc.Common.ServerState
import MTRpc.Rpc.ServicePool
import MTRpc.Rpc.ServerImpl
import MTRpc.Rpc.MethodBoard
import MTRpc.Lib.Linked
import MTRpc.Thread.WorkQueue
import MTRpc.Mio.EventTimer
import MTRpc.Mio.TimerLoop
import MTRpc.Lib.RedBlack
import MTRpc.Lib.HeapTree
import MTRpc.Lib.Fuel
import MTRpc.Common.NgxRbtree
import MTRpc.Common.RbtreeInsert
import MTRpc.Common.RbtreeDelete
import MTRpc.Common.RbtreeOrder
import MTRpc.Mio.TimerNodes
import MTRpc.Lib.Endless
import MTRpc.Mio.Poller
import MTRpc.Thread.WorkStop
import MTRpc.Http.HeaderArrival
import MTRpc.Rpc.MessageArrival
import MTRpc.Rpc.RequestDelivery
import MTRpc.Rpc.ResponseDelivery
import MTRpc.Rpc.ServerRounds
