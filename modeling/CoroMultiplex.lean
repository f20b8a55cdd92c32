import CoroMultiplex.Foundations.Bytes
import CoroMultiplex.Foundations.Sequence
import CoroMultiplex.Foundations.Path
import CoroMultiplex.Foundations.Machine
import CoroMultiplex.Foundations.Interleaving
import CoroMultiplex.Foundations.UnorderedMap
import CoroMultiplex.Foundations.Table
import CoroMultiplex.Foundations.QueueHistory
import CoroMultiplex.Http.Message
import CoroMultiplex.Http.Request
import CoroMultiplex.Http.Grammar
import CoroMultiplex.Http.Response
import CoroMultiplex.Http.Resolution
import CoroMultiplex.Storage.FileCache
import CoroMultiplex.Server.Session
import CoroMultiplex.Server.Framing
import CoroMultiplex.Server.Responder
import CoroMultiplex.Server.Delivery
import CoroMultiplex.Server.Pipelining
import CoroMultiplex.Server.Traversal
import CoroMultiplex.Pool.ThreadPool
import CoroMultiplex.Pool.Schedule
import CoroMultiplex.Pool.Startup
import CoroMultiplex.Pool.Frames
import CoroMultiplex.Pool.Binding
import CoroMultiplex.Pool.Accounting
import CoroMultiplex.Pool.Cleaning
import CoroMultiplex.Foundations.Locks
import CoroMultiplex.Pool.Exclusion
import CoroMultiplex.Pool.Progress
import CoroMultiplex.Pool.Refinement
import CoroMultiplex.Foundations.Recency
import CoroMultiplex.Storage.Lru
import CoroMultiplex.Storage.Coherence
import CoroMultiplex.Storage.Recall
import CoroMultiplex.Storage.Whole
import CoroMultiplex.Server.Oversize
import CoroMultiplex.Http.Acceptance
import CoroMultiplex.Uring.Ring
import CoroMultiplex.Uring.Flight
import CoroMultiplex.Uring.Ledger
import CoroMultiplex.Uring.Handing
import CoroMultiplex.Uring.Attention
import CoroMultiplex.Uring.Completion
import CoroMultiplex.Uring.Accept
import CoroMultiplex.Async.Calls
import CoroMultiplex.Async.Nesting
import CoroMultiplex.Server.Sockets
import CoroMultiplex.Server.Release
import CoroMultiplex.Http.Target
import CoroMultiplex.Http.Negotiation
import CoroMultiplex.Http.Roundtrip
import CoroMultiplex.Server.Closing
import CoroMultiplex.Server.Splitting
import CoroMultiplex.Server.Casing
import CoroMultiplex.Http.Reactor
import CoroMultiplex.Server.Reader
import CoroMultiplex.Http.Buffers
import CoroMultiplex.Http.Locality
import CoroMultiplex.Http.Calls
import CoroMultiplex.Server.Agreement
import CoroMultiplex.Storage.Capacity
import CoroMultiplex.Async.Epoll
import CoroMultiplex.Http.LineEnds
import CoroMultiplex.Foundations.RoundRobin
import CoroMultiplex.Pool.Spreading
import CoroMultiplex.Foundations.Ownership
import CoroMultiplex.Http.Descriptors
import CoroMultiplex.Utils.BufferPool
import CoroMultiplex.Utils.RunOut
import CoroMultiplex.Uring.Shortage
import CoroMultiplex.Async.Generator
import CoroMultiplex.Async.Yields
import CoroMultiplex.Pool.Staffing
import CoroMultiplex.Pool.Wakeups
import CoroMultiplex.Async.Workers
import CoroMultiplex.Async.Placement
import CoroMultiplex.Async.Moves
import CoroMultiplex.Async.Proceeding
import CoroMultiplex.Async.Roots
import CoroMultiplex.Async.Service
import CoroMultiplex.Foundations.Sharing
import CoroMultiplex.Storage.Mappings
import CoroMultiplex.Server.Lending
import CoroMultiplex.Storage.Transparency
import CoroMultiplex.Server.Uncached
import CoroMultiplex.Epoll.Reactor
import CoroMultiplex.Epoll.Registration
import CoroMultiplex.Epoll.Dispatching
import CoroMultiplex.Foundations.Paging
import CoroMultiplex.Storage.Competition
import CoroMultiplex.Foundations.Wire
import CoroMultiplex.Http.Client
import CoroMultiplex.Server.Receiving
import CoroMultiplex.Server.Mirroring
