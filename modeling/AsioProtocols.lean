import AsioProtocols.Base.Machine
import AsioProtocols.Base.Regex
import AsioProtocols.Base.Stoi
import AsioProtocols.Http.PoolQueue
import AsioProtocols.Http.Removal
import AsioProtocols.Http.Events
import AsioProtocols.Http.Handlers
import AsioProtocols.Http.ExclusiveRuns
import AsioProtocols.Http.CompletesOnce
import AsioProtocols.Http.BrokenConnection
import AsioProtocols.Http.Records
import AsioProtocols.Http.Ownership
import AsioProtocols.Http.OwnershipRuns
import AsioProtocols.Http.Slots
import AsioProtocols.Http.Reading
import AsioProtocols.Http.KeptAlive
import AsioProtocols.Http.KeptAliveRuns
import AsioProtocols.Base.Authority
import AsioProtocols.Http.Uri
import AsioProtocols.Amqp.ConnectionDetails
import AsioProtocols.HostDecided
import AsioProtocols.Amqp.Connection
import AsioProtocols.Amqp.LossFree
import AsioProtocols.Amqp.Incoming
import AsioProtocols.Amqp.RoundTrip
import AsioProtocols.Http.Details
import AsioProtocols.Http.Request
import AsioProtocols.Http.UriRoundTrip
import AsioProtocols.Base.UnorderedMap
import AsioProtocols.Http.Endpoints
import AsioProtocols.Http.RequestRoundTrip
import AsioProtocols.Http.TwoParsers
import AsioProtocols.Http.Delimited
import AsioProtocols.Http.BodySizes
import AsioProtocols.Http.Trailers
import AsioProtocols.Http.Fate
import AsioProtocols.Http.Hostile
import AsioProtocols.Http.Usable
import AsioProtocols.Http.Effects
import AsioProtocols.Http.StallTimer
import AsioProtocols.Http.Writes
import AsioProtocols.Buffer
import AsioProtocols.Buffer.WriteArea
import AsioProtocols.Buffer.Calls
import AsioProtocols.Buffer.PendingWrites
import AsioProtocols.Buffer.Reading
import AsioProtocols.Ports
import AsioProtocols.Http.Schemes
import AsioProtocols.Http.Percent
import AsioProtocols.Base.Multimap
import AsioProtocols.Http.HeaderNames
import AsioProtocols.Http.HeaderList
import AsioProtocols.Http.ContentLength
import AsioProtocols.Http.Grammar
import AsioProtocols.Http.Decoding
import AsioProtocols.Http.Query
import AsioProtocols.Http.RequestLine
import AsioProtocols.Base.Pieces
import AsioProtocols.DelimStream
import AsioProtocols.TcpStream
import AsioProtocols.Buffer.Fifo
import AsioProtocols.Http.Watchdog
import AsioProtocols.Http.Wire
import AsioProtocols.Http.Retries
import AsioProtocols.Http.Client
import AsioProtocols.Statsd
import AsioProtocols.Amqp.Conversation
import AsioProtocols.Http.Injection
import AsioProtocols.Base.Numeral
import AsioProtocols.Http.ResponseGrammar
import AsioProtocols.Base.Dialling
import AsioProtocols.Amqp.Client
import AsioProtocols.Tcp
import AsioProtocols.Http.Answered
import AsioProtocols.Http.Exchanges
import AsioProtocols.Base.Segments
import AsioProtocols.Http.Arrivals
import AsioProtocols.Http.Segments
