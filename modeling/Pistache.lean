import Pistache.Http.Chunked
import Pistache.Http.Reuse
import Pistache.Http.Framing
import Pistache.Http.DeclaredBody
import Pistache.Http.Serving
import Pistache.Http.Idle
import Pistache.Client.Matching
import Pistache.Tcp.WriteOrder
import Pistache.Tcp.Ownership
import Pistache.Tcp.Promises
import Pistache.Tcp.Readiness
import Pistache.Rest.RemoveRoute
import Pistache.Async.Chain
import Pistache.Async.When
import Pistache.Async.Wakes
import Pistache.Aio.Reactor
import Pistache.Mailbox.MpmcFifo
import Pistache.Mailbox.PollableDelivery
import Pistache.Experimental.Scheme
import Pistache.Experimental.Locks
import Pistache.Experimental.Timeouts
import Pistache.Experimental.Stranded
import Pistache.Experimental.Queued
import Pistache.Experimental.Settled
import Pistache.Http.HeadPieces
import Pistache.Http.ResponseStream
import Pistache.Eventmeth.EmEventFd
import Pistache.Ssl.Accounting
import Pistache.Ssl.Receiving
import Pistache.Aio.Shutdown
import Pistache.Eventmeth.TimerRuns
import Pistache.Http.TimeoutRuns
import Pistache.Http.ResponseTrip
import Pistache.Client.RequestTrip
import Pistache.Http.LengthBody
import Pistache.Http.ResponsePieces
import Pistache.Http.BodyFraming
import Pistache.Http.ChunkGrammar
import Pistache.Http.Authorization
import Pistache.Rest.OneResponse
import Pistache.Rest.Swagger
import Pistache.Http.ParseReturns
import Pistache.Eventmeth.NoDeadlock
import Pistache.Eventmeth.NoDeadEvent
import Pistache.Rest.Resource
import Pistache.Http.JarIterator
import Pistache.Http.StreamedValue
import Pistache.Http.RequestLine
import Pistache.Http.HeaderBlock
import Pistache.Http.CacheControl
import Pistache.Http.AcceptEncoding
import Pistache.Http.CookieString
import Pistache.Http.CodingNames
import Pistache.Http.QualityValue
import Pistache.Http.Collection
import Pistache.Client.SplitUrl
import Pistache.Http.HostTrip
import Pistache.Common.StreamStorage
import Pistache.Common.SendFile
import Pistache.Http.AcceptList
import Pistache.Http.MediaPrint
import Pistache.Http.CookieDates
import Pistache.Http.KeepAlive
