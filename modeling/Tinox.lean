import Tinox.Lexer.Shifts
import Tinox.Lexer.Progress
import Tinox.Lexer.Comments
import Tinox.Codegen.Layout
import Tinox.Codegen.Slots
import Tinox.Parser.FastPath
import Tinox.Check.Independence
import Tinox.Imports.Merge
import Tinox.Codegen.Vtables
import Tinox.Codegen.Match
import Tinox.Codegen.Orm
import Tinox.Codegen.Requests
import Tinox.Runtime.MapSlots
import Tinox.Runtime.Handles
import Tinox.Runtime.Sorting
import Tinox.Runtime.Channel
import Tinox.Runtime.JsonEscapes
import Tinox.Runtime.JsonTexts
import Tinox.Runtime.JsonRoundTrip
import Tinox.Runtime.JsonArrays
import Tinox.Runtime.JsonSafety
import Tinox.Runtime.CheckedIntegers
import Tinox.Runtime.Replacing
import Tinox.Net.WebSocket
import Tinox.Net.Http2Frames
import Tinox.Check.Jumps
import Tinox.Check.Writes
import Tinox.Check.Scoping
import Tinox.Check.Access
import Tinox.Check.Assignability
import Tinox.Check.Cycles
import Tinox.Check.Unification
import Tinox.Check.Substitutions
import Tinox.Net.Routes
import Tinox.Net.Hpack
import Tinox.Net.Traces
import Tinox.Net.Http2Server
import Tinox.Net.WsProtocolErrors
import Tinox.Net.Http2Payloads
import Tinox.Net.Http2PeerSettings
import Tinox.Net.Http2Requests
import Tinox.Net.Http2Compression
import Tinox.Runtime.Zip
import Tinox.Runtime.ZipArchive
import Tinox.Runtime.ZipEdits
import Tinox.Net.HpackRoundTrip
import Tinox.Formats.Csv
import Tinox.Amqp.RoundTrip10
import Tinox.Amqp.RoundTrip091
import Tinox.Amqp.Cursors
import Tinox.Amqp.Shapes10
import Tinox.Amqp.TableBounds
import Tinox.Amqp.ValueBounds
import Tinox.Amqp.Dispatcher
import Tinox.Amqp.Channel091
import Tinox.Amqp.Delivery091
import Tinox.Amqp.Links
import Tinox.Amqp.Messages10
import Tinox.Amqp.Transfers10
import Tinox.Amqp.Truncation091
import Tinox.Amqp.Truncation10
import Tinox.Net.WsMessages
import Tinox.Net.Http1Responses
import Tinox.Net.Http1Requests
import Tinox.Net.Http1Parsing
import Tinox.Net.Http1Handling
import Tinox.Net.EpollConnections
import Tinox.Net.SmtpClient
import Tinox.Auth.OidcWebApp
import Tinox.Auth.Jwt
import Tinox.Net.RoutePatterns
import Tinox.Net.HpackBounds
import Tinox.Net.HpackSafety
import Tinox.Net.RateLimiter
import Tinox.Net.SmtpHandles
import Tinox.Net.ServerSentEvents
import Tinox.Net.RedisClient
import Tinox.Formats.Toml
import Tinox.Formats.MsgpackRoundTrip
import Tinox.Formats.Codecs
import Tinox.Core.Pool
import Tinox.Core.Cache
import Tinox.Core.Decimal
import Tinox.Core.Heap
import Tinox.Core.Trie
import Tinox.Formats.Uri
import Tinox.Packages.Pins
import Tinox.Packages.Repeats
