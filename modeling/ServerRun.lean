import ServerRun.Archive.Checksum
import ServerRun.Archive.Inflate
import ServerRun.Archive.Tree
import ServerRun.Archive.Unpack
import ServerRun.Archive.Zip
import ServerRun.Command.Basic
import ServerRun.Command.Batch
import ServerRun.Command.Parser
import ServerRun.Command.Source
import ServerRun.CommandLine.Arguments
import ServerRun.CommandLine.Report
import ServerRun.CommandLine.Request
import ServerRun.CommandLine.Value
import ServerRun.Error
import ServerRun.File.Path
import ServerRun.File.System
import ServerRun.Http.Challenge
import ServerRun.Http.Client
import ServerRun.Http.Dialogue
import ServerRun.Http.Fetch
import ServerRun.Http.Message
import ServerRun.Http.Post
import ServerRun.Http.Url
import ServerRun.Json.Basic
import ServerRun.Json.Bytes
import ServerRun.Json.Reader
import ServerRun.Json.Writer
import ServerRun.Log.Palette
import ServerRun.Log.Record
import ServerRun.Log.Style
import ServerRun.Log.Template
import ServerRun.Main
import ServerRun.Management.Channel
import ServerRun.Model.Coordinate
import ServerRun.Model.Installation
import ServerRun.Model.Record
import ServerRun.Number.Binary64
import ServerRun.Number.Decimal
import ServerRun.Project.Descriptor
import ServerRun.Project.Metadata
import ServerRun.Project.Properties
import ServerRun.Proofs.Run.CleanUp
import ServerRun.Proofs.Run.Interrupt
import ServerRun.Proofs.Run.Order
import ServerRun.Proofs.Server.Life
import ServerRun.Provision.Basic
import ServerRun.Rehearsal.Files
import ServerRun.Rehearsal.Network
import ServerRun.Rehearsal.Program
import ServerRun.Rehearsal.Run
import ServerRun.Rehearsal.Script
import ServerRun.Rehearsal.Session
import ServerRun.Rehearsal.Stage
import ServerRun.Repository.Resolve
import ServerRun.Repository.System
import ServerRun.Run.Basic
import ServerRun.Run.Phase
import ServerRun.Run.Sequence
import ServerRun.Run.Shutdown
import ServerRun.Run.ShutdownSystem
import ServerRun.Run.SignalTable
import ServerRun.Run.Supervisor
import ServerRun.Run.System
import ServerRun.Schema.Basic
import ServerRun.Schema.Datum
import ServerRun.Server.Basic
import ServerRun.Server.Calls
import ServerRun.Server.Launch
import ServerRun.Server.Lines
import ServerRun.Server.Output
import ServerRun.Server.Startup
import ServerRun.Server.Stop
import ServerRun.Server.System
import ServerRun.Server.Work
import ServerRun.Settings.Basic
import ServerRun.Settings.Check
import ServerRun.Settings.Layout
import ServerRun.Settings.Load
import ServerRun.Settings.VariableFile
import ServerRun.Settings.Standard
import ServerRun.Settings.Variables
import ServerRun.Span
import ServerRun.Text.Blank
import ServerRun.Text.Charset
import ServerRun.Text.Digit
import ServerRun.Text.Encoding
import ServerRun.Text.Hidden
import ServerRun.Text.Uppercase
import ServerRun.Text.WordChar
import ServerRun.Xml.Basic
import ServerRun.Xml.Declaration
import ServerRun.Xml.Doctype
import ServerRun.Xml.Document
import ServerRun.Xml.Encoding
import ServerRun.Xml.Name
import ServerRun.Xml.Reference
import ServerRun.Yaml.Implicit
import ServerRun.Yaml.Lexer
import ServerRun.Yaml.Node
import ServerRun.Yaml.Scalar
import ServerRun.Yaml.Token
import ServerRun.Yaml.Value
import ServerRun.Proofs.Server.Wait
import ServerRun.Proofs.Server.Queue
import ServerRun.Proofs.Server.Readiness
import ServerRun.Proofs.Server.Serial
import ServerRun.Proofs.Command.Value
import ServerRun.Proofs.Text.Digit
import ServerRun.Proofs.Command.Reading
import ServerRun.Proofs.Command.Writing
import ServerRun.Proofs.Command.Batch
import ServerRun.Proofs.Run.Shutdown
import ServerRun.Proofs.File.Path
import ServerRun.Proofs.Run.Launch
import ServerRun.Proofs.Server.Act
import ServerRun.Proofs.Server.Once
import ServerRun.Proofs.Archive.Fault
import ServerRun.Proofs.Archive.Containment
import ServerRun.Proofs.File.System
import ServerRun.Proofs.Repository.Resolve
import ServerRun.Proofs.Repository.Turn
import ServerRun.Proofs.Repository.Move
import ServerRun.Proofs.Repository.Atomic
import ServerRun.Proofs.Server.Startup
import ServerRun.Proofs.Server.Trace
import ServerRun.Proofs.Server.Settle
import ServerRun.Proofs.Server.Rounds
import ServerRun.Proofs.Server.Polling
import ServerRun.Proofs.Server.Escalation
import ServerRun.Proofs.Server.Thorough
import ServerRun.Proofs.Server.Pause
import ServerRun.Proofs.Server.Halt
import ServerRun.Proofs.Command.Derivation
import ServerRun.Proofs.Command.Spacing
import ServerRun.Command.Meaning
import ServerRun.Proofs.Command.Meaning
import ServerRun.Proofs.File.Tree
import ServerRun.Proofs.Archive.Tree
import ServerRun.Proofs.Provision.Extraction
import ServerRun.Proofs.Repository.Tree
import ServerRun.Proofs.Provision.Failure
import ServerRun.Proofs.Http.Dialogue
import ServerRun.Proofs.Management.Request
import ServerRun.Proofs.Management.Operation
import ServerRun.Proofs.Management.Call
import ServerRun.Proofs.Management.Deployment
import ServerRun.Proofs.Project.Reference
import ServerRun.Proofs.Project.Descriptor
import ServerRun.Proofs.Failure
import ServerRun.Proofs.Fields
import ServerRun.Proofs.Log.Template
import ServerRun.Proofs.Server.Output
import ServerRun.Proofs.Schema.Layer
import ServerRun.Proofs.Settings.Variables
import ServerRun.Proofs.Settings.Failure
import ServerRun.Proofs.Settings.Members
import ServerRun.Proofs.Settings.Nested
import ServerRun.Proofs.Settings.Check
import ServerRun.Proofs.Settings.Precedence
import ServerRun.Proofs.Model.Coordinate
import ServerRun.Proofs.Repository.Place
import ServerRun.Command.Course
import ServerRun.Proofs.Command.Advance
import ServerRun.Proofs.Command.Course
import ServerRun.Proofs.Command.Halt
import ServerRun.Proofs.Command.Limits
