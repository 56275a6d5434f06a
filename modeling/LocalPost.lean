import LocalPost.Core.Lts
import LocalPost.Core.Condition
import LocalPost.Threadtools.Channel.State
import LocalPost.Threadtools.Channel.System
import LocalPost.Threadtools.Channel.Transition
import LocalPost.Threadtools.Channel.Wakeup
import LocalPost.Threadtools.Channel.Rendezvous
import LocalPost.Threadtools.Channel.History
import LocalPost.Threadtools.Channel.Delivery
import LocalPost.Threadtools.Channel.Handoff
import LocalPost.Threadtools.Executor.Pool
import LocalPost.Threadtools.Executor.Backlog
import LocalPost.Threadtools.Executor.AsyncPool
import LocalPost.Http.Base.Selector
import LocalPost.Http.Base.FdReuse
import LocalPost.Http.Httptools.Conn
import LocalPost.Http.Httptools.Server
import LocalPost.Http.Httptools.Pipeline
import LocalPost.Http.H11.Receive
import LocalPost.Http.Httptools.BodyLimit
import LocalPost.Http.Body.Net
import LocalPost.Http.Httptools.Receive
import LocalPost.Http.H11.NextEvent
import LocalPost.Http.Asgi.Pump
import LocalPost.Http.Body.Truncation
import LocalPost.Http.Body.Contract
import LocalPost.Http.Pool.Run
import LocalPost.Http.Pool.Ownership
import LocalPost.Threadtools.Executor.Settled
import LocalPost.Http.Base.Shutdown
import LocalPost.Http.Base.ShutdownRuns
import LocalPost.Http.Base.SelfPipe
import LocalPost.Http.Pool.Orphans
import LocalPost.Core.Regex
import LocalPost.Http.Routing.Pattern
import LocalPost.Http.Routing.Template
import LocalPost.Core.Dict
import LocalPost.Http.Routing.Routes
import LocalPost.Http.Routing.Combined
import LocalPost.Core.StableSort
import LocalPost.Http.Routing.Reference
import LocalPost.Http.Routing.Dispatch
import LocalPost.Http.Routing.Walk
import LocalPost.Openapi.Apps
import LocalPost.Openapi.Symmetry
import LocalPost.Openapi.Alike
import LocalPost.Http.Wsgi.Environ
import LocalPost.Http.Wsgi.RoundTrip
import LocalPost.Core.ChunkedCoding
import LocalPost.Http.Writer.Httptools
import LocalPost.Http.Writer.H11
import LocalPost.Http.Writer.Integrity
import LocalPost.Http.Writer.Received
import LocalPost.Http.Wsgi.Respond
import LocalPost.Http.Wsgi.Agreement
import LocalPost.Core.EventStream
import LocalPost.Openapi.Sse
import LocalPost.Openapi.SseLines
import LocalPost.Openapi.SseRoundTrip
import LocalPost.Http.Writer.Framing
import LocalPost.Http.Writer.Bodiless
import LocalPost.Openapi.Document
import LocalPost.Openapi.SpecCache
import LocalPost.Threadtools.TaskGroup.State
import LocalPost.Threadtools.TaskGroup.Invariant
import LocalPost.Threadtools.TaskGroup.Errors
import LocalPost.Threadtools.TaskGroup.Covered
import LocalPost.Di.State
import LocalPost.Di.Moves
import LocalPost.Di.Ledger
import LocalPost.Di.Single
import LocalPost.Di.Injected
import LocalPost.Di.Teardown
import LocalPost.Threadtools.Executor.AsyncSettled
import LocalPost.Threadtools.Executor.Rejection
import LocalPost.Http.H11.Pipelined
import LocalPost.Core.Keeps
import LocalPost.Http.SocketMode.State
import LocalPost.Http.SocketMode.H11
import LocalPost.Http.SocketMode.Httptools
import LocalPost.Http.SocketMode.Invariant
import LocalPost.Http.SocketMode.Switching
import LocalPost.Http.SocketMode.Runs
import LocalPost.Hosting.Lifetime
import LocalPost.Hosting.ComposedStart
import LocalPost.Core.MemoryStream
import LocalPost.Scheduler.Task
import LocalPost.Scheduler.Shared
import LocalPost.Http.Base.DeadlineRuns
import LocalPost.Http.Base.StaleSweep
import LocalPost.Core.ResponseHead
import LocalPost.Http.Writer.HeadBytes
import LocalPost.Http.Base.Closing
import LocalPost.Openapi.Components
import LocalPost.Openapi.Drained
import LocalPost.Openapi.ComponentClosure
import LocalPost.Openapi.Signature
import LocalPost.Openapi.WellFormed
import LocalPost.Openapi.BodyCache
import LocalPost.Openapi.Contribution
import LocalPost.Openapi.Outcomes
import LocalPost.Openapi.Required
import LocalPost.Core.Base64
import LocalPost.Openapi.BasicAuth
import LocalPost.Openapi.Security
import LocalPost.Http.Static.Range
import LocalPost.Http.Compress.Negotiate
import LocalPost.Http.Compress.Headers
import LocalPost.Http.Compress.Ctx
import LocalPost.Core.StreamCoding
import LocalPost.Http.Compress.Stream
import LocalPost.Http.Compress.OldPeer
import LocalPost.Http.Compress.Framing
import LocalPost.Http.Base.SendAll
import LocalPost.Http.Routing.Exact
import LocalPost.Core.Handover
import LocalPost.Http.Body.Bridge
import LocalPost.Http.Body.Pumps
import LocalPost.Scheduler.Stages
import LocalPost.Threadtools.Channel.Accounting
import LocalPost.Scheduler.Cron
import LocalPost.Di.Locks
import LocalPost.Di.Settling
import LocalPost.Core.FileTree
import LocalPost.Http.Static.Resolve
import LocalPost.Http.Static.Serve
import LocalPost.Http.Static.Confined
import LocalPost.Http.Static.Served
import LocalPost.Http.Async.Answering
import LocalPost.Http.Async.Exchange
import LocalPost.Http.Async.Agreement
import LocalPost.Http.Wsgi.Wrapped
import LocalPost.Http.Wsgi.BothWays
import LocalPost.Scheduler.Chain
import LocalPost.Scheduler.Drain
import LocalPost.Hosting.Tree
import LocalPost.Core.Json
import LocalPost.Core.JsonRoundTrip
import LocalPost.Http.App.Returned
import LocalPost.Http.App.Registered
import LocalPost.Http.Pool.OnSelector
import LocalPost.Http.H11.InBody
