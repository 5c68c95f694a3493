import SolcDispatch.Address
import SolcDispatch.Artifact.Directive
import SolcDispatch.Artifact.Name
import SolcDispatch.Artifact.Path
import SolcDispatch.Assoc
import SolcDispatch.Broker.Basic
import SolcDispatch.Broker.Compile
import SolcDispatch.Broker.Invocation
import SolcDispatch.Broker.Setup
import SolcDispatch.Broker.Warm
import SolcDispatch.Cache.Basic
import SolcDispatch.Catalog
import SolcDispatch.Client
import SolcDispatch.CommandLine.Arguments
import SolcDispatch.CommandLine.Report
import SolcDispatch.Depot.Basic
import SolcDispatch.Depot.Response
import SolcDispatch.Failure
import SolcDispatch.Files
import SolcDispatch.Host.Binding
import SolcDispatch.Host.Build
import SolcDispatch.Host.Connection
import SolcDispatch.Host.Process
import SolcDispatch.Host.Program
import SolcDispatch.Host.Wire
import SolcDispatch.Http.CompileRequest
import SolcDispatch.Http.CrossOrigin
import SolcDispatch.Http.Health
import SolcDispatch.Http.Message
import SolcDispatch.Http.Service
import SolcDispatch.Http.SizeLimit
import SolcDispatch.Index
import SolcDispatch.Interpreter.Call
import SolcDispatch.Interpreter.Capability
import SolcDispatch.Interpreter.Loader
import SolcDispatch.Interpreter.Rehearsed
import SolcDispatch.Json.Basic
import SolcDispatch.Json.ParseError
import SolcDispatch.Json.Parser
import SolcDispatch.Json.Printer
import SolcDispatch.Legacy.Compile
import SolcDispatch.Legacy.Diagnostic
import SolcDispatch.Legacy.Gas
import SolcDispatch.Legacy.Output
import SolcDispatch.Legacy.Prepare
import SolcDispatch.Legacy.SeedSize
import SolcDispatch.LinkReference.Basic
import SolcDispatch.LinkReference.Group
import SolcDispatch.LinkReference.Placeholder
import SolcDispatch.Main
import SolcDispatch.Native
import SolcDispatch.Number.Binary64
import SolcDispatch.Number.Decimal
import SolcDispatch.Output
import SolcDispatch.Program.Basic
import SolcDispatch.Program.Start
import SolcDispatch.Proofs.LinkReference.Layout
import SolcDispatch.Proofs.LinkReference.Scan
import SolcDispatch.Script.Reader
import SolcDispatch.Script.Run
import SolcDispatch.Script.Syntax
import SolcDispatch.Script.Token
import SolcDispatch.Script.Value
import SolcDispatch.Scripted
import SolcDispatch.Settings
import SolcDispatch.Settings.EnvFile
import SolcDispatch.Settings.Numeral
import SolcDispatch.Shell.Arithmetic
import SolcDispatch.Shell.Printf
import SolcDispatch.Shell.Reader
import SolcDispatch.Shell.Run
import SolcDispatch.Shell.Syntax
import SolcDispatch.StandardInput
import SolcDispatch.Text.Blank
import SolcDispatch.Text.DecimalDigit
import SolcDispatch.Text.Lines
import SolcDispatch.Text.Printable
import SolcDispatch.Text.Quoted
import SolcDispatch.Text.TextLike
import SolcDispatch.Text.Utf8
import SolcDispatch.Text.WideUnits
import SolcDispatch.Trace
import SolcDispatch.Version.Basic
import SolcDispatch.Version.Order
import SolcDispatch.Proofs.Decimal
import SolcDispatch.Proofs.Version.Canonical
import SolcDispatch.Proofs.Catalog.Listing
import SolcDispatch.Proofs.Catalog.Refreshing
import SolcDispatch.Proofs.Files
import SolcDispatch.Proofs.Artifact.Path
import SolcDispatch.Proofs.Assoc
import SolcDispatch.Proofs.Cache.Sharing
import SolcDispatch.Proofs.Cache.SharingInvariant
import SolcDispatch.Proofs.Cache.SingleFlight
import SolcDispatch.Proofs.Number.Rounding
import SolcDispatch.Proofs.Number.Shortest
import SolcDispatch.Proofs.Json.Strings
import SolcDispatch.Proofs.Json.Numbers
import SolcDispatch.Proofs.Json.RoundTrip
import SolcDispatch.Proofs.Json.Reading
import SolcDispatch.Proofs.StandardInput
import SolcDispatch.Proofs.Legacy.Course
import SolcDispatch.Proofs.Legacy.Seeds
import SolcDispatch.Proofs.Text.Utf8
import SolcDispatch.Proofs.Json.Bytes
import SolcDispatch.Proofs.Broker.Result
import SolcDispatch.Proofs.Http.Envelope
import SolcDispatch.Proofs.Client
import SolcDispatch.Proofs.Json.Lines
import SolcDispatch.Proofs.Host.Lines
import SolcDispatch.Proofs.Host.Calls
import SolcDispatch.Proofs.Host.Answers
import SolcDispatch.Proofs.StandardInput.NormalForm
import SolcDispatch.Proofs.Version.RoundTrip
import SolcDispatch.Proofs.Version.Spelling
import SolcDispatch.Proofs.Artifact.Names
import SolcDispatch.Proofs.Cache.Failures
import SolcDispatch.Proofs.Cache.Spelling
import SolcDispatch.Proofs.Broker.Spelling
import SolcDispatch.Proofs.Broker.Interchange
import SolcDispatch.Proofs.Legacy.Faults
import SolcDispatch.Proofs.Broker.Channel
import SolcDispatch.Proofs.Text.Lines
import SolcDispatch.Proofs.Catalog.Feed
import SolcDispatch.Proofs.StandardInput.ModelChecker
import SolcDispatch.Proofs.Legacy.ModelChecker
import SolcDispatch.Proofs.Broker.Admission
import SolcDispatch.Proofs.Broker.ModelChecker
import SolcDispatch.Proofs.Cache.Tickets
import SolcDispatch.Proofs.Broker.Traffic
import SolcDispatch.Proofs.Broker.Handling
import SolcDispatch.Proofs.Broker.Traces
import SolcDispatch.Proofs.Broker.Dispatch
import SolcDispatch.Proofs.Legacy.Locations
import SolcDispatch.Proofs.Legacy.Severity
import SolcDispatch.Proofs.Legacy.Refusal
import SolcDispatch.Proofs.Cache.Acquisition
import SolcDispatch.Proofs.LinkReference.Grouping
import SolcDispatch.Proofs.Legacy.ContractKeys
import SolcDispatch.Proofs.Legacy.Contracts
import SolcDispatch.Proofs.Legacy.Layout
import SolcDispatch.Proofs.Legacy.Normalized
import SolcDispatch.Proofs.Version.Order
import SolcDispatch.Proofs.Catalog.Newest
import SolcDispatch.Proofs.Version.Grammar
import SolcDispatch.Proofs.StandardInput.Violations
import SolcDispatch.Proofs.Legacy.Violations
import SolcDispatch.Proofs.Version.Identifiers
import SolcDispatch.Proofs.Version.Precedence
import SolcDispatch.Proofs.Text.Dotted
import SolcDispatch.Proofs.Artifact.Directive
import SolcDispatch.Proofs.Http.SizeLimit
import SolcDispatch.Proofs.Cache.ScriptedText
import SolcDispatch.Proofs.Host.Scope
import SolcDispatch.Proofs.Writing.Success
import SolcDispatch.Proofs.Artifact.Temporary
import SolcDispatch.Proofs.Broker.Warming
import SolcDispatch.Proofs.Version.WeakOrder
import SolcDispatch.Proofs.LinkReference.Rounds
import SolcDispatch.Proofs.Legacy.Gas
