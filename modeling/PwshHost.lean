import PwshHost.Control.Loop
import PwshHost.Control.Fold
import PwshHost.Control.Requests
import PwshHost.Memory.Heap
import PwshHost.Numeric.Decimal
import PwshHost.Numeric.Rounding
import PwshHost.Numeric.RelativeError
import PwshHost.Unicode.Encoding
import PwshHost.Files.Walk
import PwshHost.Xml.Text
import PwshHost.Xml.Markup
import PwshHost.Xml.Reader
import PwshHost.Xml.TagScan
import PwshHost.Xml.SliceReader
import PwshHost.Xml.SliceText
import PwshHost.Xml.SliceProgress
import PwshHost.Rust.Std
import PwshHost.Time
import PwshHost.Time.Lexical
import PwshHost.Time.Description
import PwshHost.Time.Reference
import PwshHost.Time.Formatting
import PwshHost.Time.Durations
import PwshHost.Time.Spans
import PwshHost.Time.Accuracy
import PwshHost.CliXml.Value
import PwshHost.CliXml.Parse
import PwshHost.CliXml.Items
import PwshHost.CliXml.Simulation
import PwshHost.CliXml.Effect
import PwshHost.CliXml.Document
import PwshHost.CliXml.Flow
import PwshHost.CliXml.Writing
import PwshHost.CliXml.Objects
import PwshHost.CliXml.Tree
import PwshHost.CliXml.Nesting
import PwshHost.CliXml.TypeNames
import PwshHost.CliXml.Primitives
import PwshHost.CliXml.Truncation
import PwshHost.CliXml.Places
import PwshHost.CliXml.TextDecoding
import PwshHost.CliXml.RoundTrip
import PwshHost.CliXml.Acceptance
import PwshHost.CliXml.Signals
import PwshHost.CliXml.Skeleton
import PwshHost.CliXml.Interference
import PwshHost.CliXml.EveryText
import PwshHost.CliXml.Accessors
import PwshHost.Bindings.Managed
import PwshHost.Bindings.Shell
import PwshHost.Bindings.PowerShell
import PwshHost.Bindings.Marshalling
import PwshHost.Bindings.Isolation
import PwshHost.Bindings.Exceptions
import PwshHost.Bindings.Scripts
import PwshHost.Bindings.Exporting
import PwshHost.HostFxr.ExitCode
import PwshHost.HostFxr.Delegates
import PwshHost.HostFxr.Detect
import PwshHost.HostFxr.PdCString
import PwshHost.Bindings.Process
import PwshHost.Bindings.EntryPoints
import PwshHost.Bindings.Wrapper
import PwshHost.Bindings.Sessions
import PwshHost.Bindings.History
import PwshHost.Bindings.Clients
import PwshHost.Bindings.EndToEnd
import PwshHost.HostFxr.Loader
import PwshHost.Bindings.Startup
