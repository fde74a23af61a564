import AggregatedLogging.Regex.Alternatives
import AggregatedLogging.Curator.Convert
import AggregatedLogging.Regex.Escape
import AggregatedLogging.Curator.Parser
import AggregatedLogging.Curator.DefaultAction
import AggregatedLogging.Curator.Names
import AggregatedLogging.Curator.Retention
import AggregatedLogging.Curator.Process
import AggregatedLogging.Curator.Defects
import AggregatedLogging.Curator.ExitStatus
import AggregatedLogging.Glob.Items
import AggregatedLogging.Glob.Pattern
import AggregatedLogging.Fluentd.Container
import AggregatedLogging.Fluentd.OperationsTags
import AggregatedLogging.Fluentd.TagList
import AggregatedLogging.Regex.Fields
import AggregatedLogging.Fluentd.RewriteTag
import AggregatedLogging.Fluentd.Journal
import AggregatedLogging.Fluentd.LogDriver
import AggregatedLogging.Fluentd.Mux
import AggregatedLogging.Fluentd.IndexFamily
import AggregatedLogging.Lines
import AggregatedLogging.Regex.Flat
import AggregatedLogging.Regex.Deletion
import AggregatedLogging.Throttle.ProjectPattern
import AggregatedLogging.Throttle.Entry
import AggregatedLogging.Throttle.Positions
import AggregatedLogging.Throttle.Transfer
import AggregatedLogging.Throttle.Crash
import AggregatedLogging.Throttle.Settings
import AggregatedLogging.Throttle.Generator
import AggregatedLogging.Throttle.Runs
import AggregatedLogging.Throttle.SourceText
import AggregatedLogging.Throttle.CleanSettings
import AggregatedLogging.Throttle.Tailing
import AggregatedLogging.Throttle.Coverage
import AggregatedLogging.Throttle.Holdings
import AggregatedLogging.Throttle.OperationsMeaning
import AggregatedLogging.Elasticsearch.Init
import AggregatedLogging.Elasticsearch.DeletePayload
import AggregatedLogging.Elasticsearch.PatternCleanup
import AggregatedLogging.Elasticsearch.SeedAcl
import AggregatedLogging.Elasticsearch.HeapSize
import AggregatedLogging.Kibana.HeapSize
import AggregatedLogging.Testing.CheckLogs
import AggregatedLogging.Testing.LogSearch
import AggregatedLogging.Elasticsearch.Readiness
import AggregatedLogging.Ruby.Json
import AggregatedLogging.Calls
import AggregatedLogging.Shell
import AggregatedLogging.ShellArithmetic
import AggregatedLogging.MemoryLimit
import AggregatedLogging.Quoting
import AggregatedLogging.Regex.Basic
import AggregatedLogging.Syslog.Packet
import AggregatedLogging.Syslog.Clean
import AggregatedLogging.Syslog.Framing
import AggregatedLogging.Syslog.TagSelection
import AggregatedLogging.Syslog.Connection
import AggregatedLogging.Syslog.Agreement
import AggregatedLogging.Curator.OwnOutput
import AggregatedLogging.Curator.Restart
import AggregatedLogging.Throttle.Restarts
import AggregatedLogging.Throttle.History
import AggregatedLogging.Throttle.Pipeline
import AggregatedLogging.Ruby.Object
import AggregatedLogging.Chunks.Sanitize
import AggregatedLogging.Chunks.Sanitized
import AggregatedLogging.Chunks.Confined
import AggregatedLogging.Chunks.Turn
import AggregatedLogging.Chunks.Outcome
import AggregatedLogging.Curator.Rules
import AggregatedLogging.Curator.Grammar
import AggregatedLogging.Chunks.Acceptance
import AggregatedLogging.Chunks.Count
import AggregatedLogging.Chunks.Isolation
import AggregatedLogging.Audit.Parse
import AggregatedLogging.Regex.Lazy
import AggregatedLogging.Regex.Outcomes
import AggregatedLogging.Ruby.Split
import AggregatedLogging.Ruby.Number
import AggregatedLogging.Audit.Fields
import AggregatedLogging.Audit.Declared
import AggregatedLogging.Audit.Flat
import AggregatedLogging.Audit.Message
import AggregatedLogging.Audit.Rendered
import AggregatedLogging.Audit.RoundTrip
import AggregatedLogging.Audit.Daemon
import AggregatedLogging.Fluentd.JsonField
import AggregatedLogging.Ruby.Base64
import AggregatedLogging.Fluentd.GenId
import AggregatedLogging.Fluentd.SyslogStores
import AggregatedLogging.Fluentd.MuxContainer
import AggregatedLogging.Fluentd.MuxNamespace
import AggregatedLogging.Fluentd.FileBuffers
import AggregatedLogging.CompactJson
import AggregatedLogging.Elasticsearch.IndexPatterns
import AggregatedLogging.Overlay
import AggregatedLogging.Polling
import AggregatedLogging.Testing.Junit
import AggregatedLogging.Testing.TryUntil
import AggregatedLogging.Fluentd.ConfigDir
import AggregatedLogging.Fluentd.Marks
import AggregatedLogging.Fluentd.Restarts
import AggregatedLogging.Fluentd.Starts
import AggregatedLogging.Fluentd.Sections
import AggregatedLogging.Fluentd.MuxClient
import AggregatedLogging.Fluentd.Resend
import AggregatedLogging.Testing.Compress
import AggregatedLogging.Receiver
import AggregatedLogging.Relp.Frame
import AggregatedLogging.Relp.Stream
import AggregatedLogging.Relp.Offers
