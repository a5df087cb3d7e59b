import Abbrev.Main
import Abbrev.Proofs.Line.Quoting
import Abbrev.Proofs.Line.Spans
import Abbrev.Proofs.Line.Written
import Abbrev.Proofs.Line.Places
import Abbrev.Proofs.Success
import Abbrev.Proofs.Failing
import Abbrev.Proofs.Conversion.Typing
import Abbrev.Proofs.Conversion.Elements
import Abbrev.Proofs.Conversion.Rendering
import Abbrev.Proofs.Conversion.RoundTrip
import Abbrev.Proofs.Conversion.Joining
import Abbrev.Proofs.Template.Building
import Abbrev.Proofs.Template.WellFormed
import Abbrev.Proofs.Template.Validity
import Abbrev.Proofs.Template.Representation
import Abbrev.Proofs.Binding.Contents
import Abbrev.Proofs.Binding.Named
import Abbrev.Proofs.Binding.Distribution
import Abbrev.Proofs.Binding.Positional
import Abbrev.Proofs.Binding.Agreement
import Abbrev.Proofs.Binding.Complete
import Abbrev.Proofs.Binding.Defaults
import Abbrev.Proofs.Binding.Reasons
import Abbrev.Proofs.Binding.NamedOutcome
import Abbrev.Proofs.Binding.PositionalOutcome
import Abbrev.Proofs.Binding.FullNames
import Abbrev.Proofs.Manifest.ArrayDefaults
import Abbrev.Proofs.Resolution.Contenders
import Abbrev.Proofs.Resolution.Filters
import Abbrev.Proofs.Resolution.Rearrangement
import Abbrev.Proofs.Resolution.Ambiguity
import Abbrev.Proofs.Resolution.Reported
import Abbrev.Proofs.Resolution.SingleLine
import Abbrev.Proofs.Resolution.Completion
import Abbrev.Proofs.Resolution.Spelling
import Abbrev.Proofs.Resolution.Rendered
import Abbrev.Proofs.Commands.Dispatch
import Abbrev.Proofs.Commands.Running
import Abbrev.Proofs.Commands.Completeness
import Abbrev.Proofs.Commands.Containers
import Abbrev.Proofs.Report.Faithful
import Abbrev.Proofs.Resolution.Faults
import Abbrev.Proofs.Session.Repertoire
import Abbrev.Proofs.Session.Steering
import Abbrev.Proofs.Shell.Handling
import Abbrev.Proofs.Session.Choosing
import Abbrev.Proofs.Shell.Steps
import Abbrev.Proofs.Shell.Runs
import Abbrev.Proofs.Shell.LastFailure
import Abbrev.Proofs.Shell.Reading
import Abbrev.Proofs.Shell.Unattended
import Abbrev.Proofs.Shell.Requests
import Abbrev.Proofs.Checked.Binding
import Abbrev.Proofs.Checked.Tokens
import Abbrev.Proofs.Checked.Resolving
import Abbrev.Proofs.Checked.Running
