import Fiona.Lib.Run
import Fiona.Lib.Threaded
import Fiona.Lib.Ownership
import Fiona.Lib.Stock
import Fiona.Lib.Flags
import Fiona.Lib.Pool
import Fiona.Lib.RefCount
import Fiona.Lib.Renewal
import Fiona.Lib.Packing
import Fiona.Lib.Rounds
import Fiona.Lib.Overwrite
import Fiona.Lib.Reserving
import Fiona.Lib.Chrono
import Fiona.Lib.Forest
import Fiona.Lib.Framing
import Fiona.Buffer.Sequence
import Fiona.Buffer.Lists
import Fiona.Buffer.Links
import Fiona.Buffer.Blocks
import Fiona.Buffer.Refinement
import Fiona.Buffer.Copy
import Fiona.Recv.BufRing
import Fiona.Recv.Owned
import Fiona.Ring
import Fiona.Recv.Frame
import Fiona.Recv.System
import Fiona.Recv.Ownership
import Fiona.Recv.Stock
import Fiona.Recv.Delivery
import Fiona.Recv.Memory
import Fiona.Recv.Integrity
import Fiona.Stream.Impl
import Fiona.Stream.Life
import Fiona.Stream.Counting
import Fiona.Stream.Accounting
import Fiona.Stream.Leaving
import Fiona.Stream.Connect
import Fiona.Stream.Flags
import Fiona.Stream.Ring
import Fiona.Stream.Timer
import Fiona.Stream.Stopping
import Fiona.Stream.Supervision
import Fiona.Stream.Causes
import Fiona.Stream.Duration
import Fiona.Slots.Acceptor
import Fiona.Slots.System
import Fiona.Slots.Holding
import Fiona.Slots.Conservation
import Fiona.Slots.Listening
import Fiona.Context.Task
import Fiona.Context.Ownership
import Fiona.Context.Continuation
import Fiona.Context.Awaiting
import Fiona.Context.Loop
import Fiona.Context.Starting
import Fiona.Context.Failing
import Fiona.Context.Suspending
import Fiona.Context.Aborting
import Fiona.Context.Pipe
import Fiona.Context.Delivery
import Fiona.Context.Drain
import Fiona.Context.FixedBuffers
import Fiona.Context.Setup
import Fiona.Context.Batches
import Fiona.Context.Reserving
import Fiona.Context.Coroutine
import Fiona.Context.CallStack
import Fiona.Context.Calls
import Fiona.Context.Nesting
import Fiona.Lib.Shared
import Fiona.Lib.Cancelling
import Fiona.Lib.Arguments
import Fiona.Lib.Parking
import Fiona.Lib.Guarding
import Fiona.Lib.Returning
import Fiona.Frames.Timer
import Fiona.Frames.File
import Fiona.Frames.Acceptor
import Fiona.Frames.Client
import Fiona.Frames.Waiting
import Fiona.Frames.Guarding
import Fiona.Frames.Returning
import Fiona.Frames.Cancelling
import Fiona.Frames.Arguments
import Fiona.Frames.Reuse
import Fiona.Slots.Files
import Fiona.Slots.Sharing
import Fiona.Tls.Callbacks
import Fiona.Tls.Session
import Fiona.Tls.Sending
import Fiona.Tls.Receiving
import Fiona.Tls.Driving
import Fiona.Tls.InPlace
import Fiona.Tls.Shutdown
import Fiona.Tls.Handshake
import Fiona.Tls.Writing
import Fiona.Tls.Connection
import Fiona.Tls.EndToEnd
import Fiona.Dns.Resolver
