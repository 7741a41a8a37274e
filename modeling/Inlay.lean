import Inlay.CallSite
import Inlay.CommandLine.Arguments
import Inlay.CommandLine.Basic
import Inlay.CommandLine.Dotenv
import Inlay.CommandLine.Reach
import Inlay.Confirm
import Inlay.Decimal.Shortest
import Inlay.Diff.Compact
import Inlay.Diff.Hunk
import Inlay.Diff.Midpoint
import Inlay.Diff.Script
import Inlay.Diff.Unified
import Inlay.Disk.Basic
import Inlay.Disk.Create
import Inlay.Disk.Listing
import Inlay.Environment
import Inlay.Error
import Inlay.Expansion
import Inlay.Json.Node
import Inlay.Json.Parse
import Inlay.Json.Print
import Inlay.Json.Value
import Inlay.Main
import Inlay.Package
import Inlay.Path
import Inlay.Program.Cat
import Inlay.Program.Executable
import Inlay.Program.Floating
import Inlay.Program.Format
import Inlay.Program.Head
import Inlay.Program.Octets
import Inlay.Program.Process
import Inlay.Program.Quoting
import Inlay.Program.Regex.Basic
import Inlay.Program.Regex.Machine
import Inlay.Program.Regex.Parser
import Inlay.Program.Regex.Search
import Inlay.Program.Shell
import Inlay.Program.Shell.Arithmetic
import Inlay.Program.Shell.Builtin.Basic
import Inlay.Program.Shell.Builtin.Control
import Inlay.Program.Shell.Builtin.Names
import Inlay.Program.Shell.Builtin.System
import Inlay.Program.Shell.Builtin.Text
import Inlay.Program.Shell.Builtin.Variable
import Inlay.Program.Shell.Condition
import Inlay.Program.Shell.Evaluate
import Inlay.Program.Shell.Expand
import Inlay.Program.Shell.FileName
import Inlay.Program.Shell.Grammar
import Inlay.Program.Shell.Lookup
import Inlay.Program.Shell.Pattern
import Inlay.Program.Shell.Reader
import Inlay.Program.Shell.Redirection
import Inlay.Program.Shell.Signal
import Inlay.Program.Shell.State
import Inlay.Program.Shell.Syntax
import Inlay.Program.Shell.Word
import Inlay.Program.StreamEditor
import Inlay.Program.StreamEditor.Edit
import Inlay.Program.StreamEditor.Reader
import Inlay.Program.StreamEditor.Script
import Inlay.Program.StreamEditor.Substitute
import Inlay.Program.Tool
import Inlay.Program.Translate
import Inlay.Program.WordCount
import Inlay.Proofs.Agreement
import Inlay.Proofs.Consent
import Inlay.Proofs.Follow
import Inlay.Proofs.Phases
import Inlay.Proofs.Preview
import Inlay.Proofs.Replace
import Inlay.Proofs.Rescan
import Inlay.Proofs.Scan
import Inlay.Proofs.Step
import Inlay.Proofs.Substitution
import Inlay.Registry
import Inlay.Run
import Inlay.Settings.Basic
import Inlay.Settings.Descriptor
import Inlay.Settings.Fault
import Inlay.Settings.Load
import Inlay.Settings.Parse
import Inlay.Settings.Print
import Inlay.Table
import Inlay.Template
import Inlay.Text.Character
import Inlay.Text.Quoted
import Inlay.Text.Utf8
import Inlay.Transpiler
import Inlay.Proofs.Leftmost
import Inlay.Proofs.Listing
import Inlay.Proofs.Course
import Inlay.Proofs.Rewriting
import Inlay.Proofs.Batch
import Inlay.Proofs.Edits
import Inlay.Proofs.Blocks
import Inlay.Proofs.Patch
import Inlay.Proofs.Unified
import Inlay.Proofs.Commute
import Inlay.Proofs.Independence
import Inlay.Proofs.Utf8
import Inlay.Proofs.Registrations
import Inlay.Proofs.Printed
import Inlay.Proofs.RoundTrip
import Inlay.Proofs.Report
import Inlay.Proofs.Frame
import Inlay.Proofs.Outside
import Inlay.Proofs.Hidden
import Inlay.Proofs.Spelling
import Inlay.Proofs.Invocation
import Inlay.Disk.Sibling
import Inlay.Proofs.Failures
import Inlay.Proofs.Literal
import Inlay.Proofs.Atomic
import Inlay.Proofs.Below
import Inlay.Proofs.Complete
import Inlay.Proofs.Identifier
import Inlay.Proofs.Placeholder
import Inlay.Proofs.Lookup
import Inlay.Proofs.Grammar
import Inlay.Proofs.Description
import Inlay.Proofs.Rewording
import Inlay.Proofs.Answers
import Inlay.Proofs.Precedence
import Inlay.Proofs.Marks
import Inlay.Proofs.Shown
import Inlay.Proofs.Distance
import Inlay.Proofs.Frontier
import Inlay.Proofs.Shortest
import Inlay.Proofs.Swap
