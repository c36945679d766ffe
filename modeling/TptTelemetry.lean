import TptTelemetry.Lib.Text
import TptTelemetry.Lib.Traverse
import TptTelemetry.Lib.Utf8
import TptTelemetry.Lib.Numeral
import TptTelemetry.Lib.Float
import TptTelemetry.Lib.Net
import TptTelemetry.Lib.Lines
import TptTelemetry.Lib.TextLines
import TptTelemetry.Lib.Pattern
import TptTelemetry.Lib.Delimited
import TptTelemetry.Lib.Incremental
import TptTelemetry.Lib.Labelled
import TptTelemetry.Lib.Concurrency
import TptTelemetry.Lib.Simulation
import TptTelemetry.Lib.Interleaving
import TptTelemetry.Lib.Rust
import TptTelemetry.Lib.Peg
import TptTelemetry.Lib.Template
import TptTelemetry.Lib.TemplateBytes
import TptTelemetry.Lib.Regex
import TptTelemetry.Lib.Json
import TptTelemetry.Lib.JsonObject
import TptTelemetry.Lib.Http
import TptTelemetry.Lib.Exposition
import TptTelemetry.Framing.Decoder
import TptTelemetry.Framing.Steps
import TptTelemetry.Framing.Chunking
import TptTelemetry.Framing.Wire
import TptTelemetry.Framing.Mixed
import TptTelemetry.Framing.Dedicated
import TptTelemetry.Framing.LineMode
import TptTelemetry.Framing.Memory
import TptTelemetry.Framing.Ceiling
import TptTelemetry.Framing.Bounded
import TptTelemetry.Framing.Sender
import TptTelemetry.Framing.Branches
import TptTelemetry.Framing.Header
import TptTelemetry.Framing.Truncated
import TptTelemetry.Server.Accept
import TptTelemetry.Server.Connection
import TptTelemetry.Server.Labels
import TptTelemetry.Server.Sockaddr
import TptTelemetry.Server.Udp
import TptTelemetry.Core.Stream
import TptTelemetry.Core.LineReader
import TptTelemetry.Core.Rejection
import TptTelemetry.Dsl.Ast
import TptTelemetry.Dsl.Grammar
import TptTelemetry.Dsl.Parser
import TptTelemetry.Dsl.Print
import TptTelemetry.Dsl.Reading
import TptTelemetry.Dsl.RoundTrip
import TptTelemetry.Dsl.Patterns
import TptTelemetry.GrokEngine.Compile
import TptTelemetry.GrokEngine.Scan
import TptTelemetry.GrokEngine.Tokenizer
import TptTelemetry.GrokEngine.Expansion
import TptTelemetry.Compiler.Scalar
import TptTelemetry.Compiler.Compile
import TptTelemetry.Compiler.Matcher
import TptTelemetry.Compiler.Search
import TptTelemetry.Compiler.Exact
import TptTelemetry.Compiler.Typed
import TptTelemetry.Compiler.Redaction
import TptTelemetry.Compiler.Coercion
import TptTelemetry.Compiler.Boundaries
import TptTelemetry.Compiler.Masking
import TptTelemetry.Compiler.Security
import TptTelemetry.Compiler.References
import TptTelemetry.Compiler.Dispatch
import TptTelemetry.Compiler.Codegen
import TptTelemetry.Compiler.Generated
import TptTelemetry.Compiler.Captures
import TptTelemetry.Compiler.GrokLibrary
import TptTelemetry.Otlp.Model
import TptTelemetry.Otlp.Mac
import TptTelemetry.Compiler.Rendering
import TptTelemetry.Otlp.Grpc
import TptTelemetry.Daemon.Pipeline
import TptTelemetry.Daemon.Worker
import TptTelemetry.Daemon.Shutdown
import TptTelemetry.Compiler.Stack
import TptTelemetry.Core.Memory
import TptTelemetry.Daemon.Config
import TptTelemetry.Inference.Provider
import TptTelemetry.Otlp.Numbers
import TptTelemetry.Otlp.Exporter
import TptTelemetry.Otlp.Json
import TptTelemetry.Otlp.Delivery
import TptTelemetry.Daemon.Ingest
import TptTelemetry.Daemon.Receivers
import TptTelemetry.Daemon.SendLog
import TptTelemetry.Daemon.Interference
import TptTelemetry.Daemon.MetricsHttp
import TptTelemetry.Daemon.Scrape
import TptTelemetry.Inference.Clients
