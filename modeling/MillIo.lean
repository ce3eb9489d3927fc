import MillIo.Interleaving.Machine
import MillIo.Interleaving.Progress
import MillIo.Interleaving.Lock
import MillIo.Interleaving.CallStack
import MillIo.Interleaving.Unlocked
import MillIo.Interleaving.View
import MillIo.Scheduling.SlotRing
import MillIo.Scheduling.Agenda
import MillIo.Scheduling.Selection
import MillIo.TimerWheel.Layout
import MillIo.TimerWheel.Refinement
import MillIo.TimerWheel.Cancel
import MillIo.TimerWheel.Census
import MillIo.TimerWheel.Earliest
import MillIo.TimerWheel.Deadline
import MillIo.TimerWheel.Aim
import MillIo.TimerWheel.Due
import MillIo.TimerWheel.Waiting
import MillIo.TimerWheel.RealTime
import MillIo.TimerWheel.Spacing
import MillIo.TimerWheel.Fate
import MillIo.TimerWheel.Table
import MillIo.ComputePool.Pool
import MillIo.ComputePool.Roster
import MillIo.ComputePool.Wakeup
import MillIo.ComputePool.Conservation
import MillIo.ComputePool.Order
import MillIo.ComputePool.Scheduler
import MillIo.ComputePool.Metrics
import MillIo.EventLoop.ThreadPool
import MillIo.EventLoop.Tokens
import MillIo.EventLoop.Workers
import MillIo.EventLoop.Channels
import MillIo.EventLoop.Panic
import MillIo.EventLoop.InTurn
import MillIo.EventLoop.Dispatch
import MillIo.EventLoop.Deregister
import MillIo.EventLoop.Readiness
import MillIo.Reactor.Run
import MillIo.Reactor.Wheel
import MillIo.Reactor.Service
import MillIo.Reactor.Timeout
import MillIo.Reactor.Stop
import MillIo.ObjectPool.Pool
import MillIo.ObjectPool.ReadBuffer
import MillIo.ObjectPool.Isolation
import MillIo.ObjectPool.Peak
import MillIo.Framing.Receiver
import MillIo.Framing.Channel
import MillIo.Connection.Send
import MillIo.Connection.Order
import MillIo.Connection.Drain
import MillIo.Server.Lifecycle
import MillIo.Server.Entries
import MillIo.Server.Counting
import MillIo.Server.Callbacks
import MillIo.Server.Removal
import MillIo.Endpoint.Registration
import MillIo.Endpoint.Callbacks
import MillIo.Endpoint.Frames
import MillIo.Endpoint.Agreement
import MillIo.Endpoint.Held
import MillIo.Endpoint.Reentry
import MillIo.Endpoint.Deadlock
import MillIo.Rpc.Protocol
import MillIo.Rpc.Receive
import MillIo.Rpc.Reassembly
import MillIo.Rpc.Grammar
import MillIo.Rpc.Buffers
import MillIo.Rpc.Builder
import MillIo.Rpc.Codec
import MillIo.Rpc.Service
import MillIo.Rpc.Names
import MillIo.Rpc.Matching
import MillIo.Rpc.Wakeup
import MillIo.Rpc.Delivery
import MillIo.Rpc.Replies
import MillIo.Rpc.EndToEnd
import MillIo.Rpc.Stack
import MillIo.Rpc.Clients
import MillIo.Rpc.Hosting
import MillIo.Rpc.History
import MillIo.Rpc.Disconnect
import MillIo.Rpc.Deadlock
