import TemplatePrep.Decimal.Real
import TemplatePrep.Decimal.Shortest
import TemplatePrep.Installation
import TemplatePrep.Json.Basic
import TemplatePrep.Json.Decode
import TemplatePrep.Json.DecodeError
import TemplatePrep.Json.Form
import TemplatePrep.Json.Literal
import TemplatePrep.Json.Printer
import TemplatePrep.Json.Reader
import TemplatePrep.Json.Record
import TemplatePrep.Kind
import TemplatePrep.Node.Basic
import TemplatePrep.Node.Form
import TemplatePrep.Node.Json
import TemplatePrep.Options
import TemplatePrep.Output
import TemplatePrep.Pass
import TemplatePrep.Pass.Behaviour
import TemplatePrep.Pass.Blocks
import TemplatePrep.Pass.Journal
import TemplatePrep.Pass.Origin
import TemplatePrep.Pass.Progress
import TemplatePrep.Pass.Splice
import TemplatePrep.Pass.Trace
import TemplatePrep.Preprocessor
import TemplatePrep.Profile
import TemplatePrep.Proofs.Installation
import TemplatePrep.Proofs.Json.Decode
import TemplatePrep.Proofs.Json.Literal
import TemplatePrep.Proofs.Json.Record
import TemplatePrep.Proofs.Json.RoundTrip
import TemplatePrep.Proofs.Node.Form
import TemplatePrep.Proofs.Node.RoundTrip
import TemplatePrep.Proofs.Options
import TemplatePrep.Proofs.Output
import TemplatePrep.Proofs.Pass.Accounted
import TemplatePrep.Proofs.Pass.Alike
import TemplatePrep.Proofs.Pass.Answered
import TemplatePrep.Proofs.Pass.Around
import TemplatePrep.Proofs.Pass.Chronology
import TemplatePrep.Proofs.Pass.Completion
import TemplatePrep.Proofs.Pass.Conservation
import TemplatePrep.Proofs.Pass.Distinct
import TemplatePrep.Proofs.Pass.Erasure
import TemplatePrep.Proofs.Pass.ExactlyOnce
import TemplatePrep.Proofs.Pass.Exchange
import TemplatePrep.Proofs.Pass.Folded
import TemplatePrep.Proofs.Pass.InPlace
import TemplatePrep.Proofs.Pass.JournalInduction
import TemplatePrep.Proofs.Pass.Kept
import TemplatePrep.Proofs.Pass.Layout
import TemplatePrep.Proofs.Pass.Limit
import TemplatePrep.Proofs.Pass.Logged
import TemplatePrep.Proofs.Pass.Moment
import TemplatePrep.Proofs.Pass.Observers
import TemplatePrep.Proofs.Pass.Placed
import TemplatePrep.Proofs.Pass.PropertyTexts
import TemplatePrep.Proofs.Pass.SettledViews
import TemplatePrep.Proofs.Pass.Termination
import TemplatePrep.Proofs.Pass.TraceInduction
import TemplatePrep.Proofs.Pass.Wrapping
import TemplatePrep.Proofs.Preprocessor
import TemplatePrep.Proofs.Rule.Effect
import TemplatePrep.Proofs.Rule.Recovery
import TemplatePrep.Proofs.Rule.Replacement
import TemplatePrep.Proofs.Rule.Sieve
import TemplatePrep.Proofs.Rule.Stability
import TemplatePrep.Proofs.SourceMap
import TemplatePrep.Proofs.Span
import TemplatePrep.Proofs.Text.Percent
import TemplatePrep.Rule.Attachment
import TemplatePrep.Rule.Basic
import TemplatePrep.Rule.Builtin
import TemplatePrep.Rule.Calls
import TemplatePrep.Rule.Effect
import TemplatePrep.Rule.OnCode
import TemplatePrep.Rule.Place
import TemplatePrep.Rule.Pruning
import TemplatePrep.Rule.Recovery
import TemplatePrep.Rule.Replacement
import TemplatePrep.Rule.Script
import TemplatePrep.Rule.Sieve
import TemplatePrep.SourceMap
import TemplatePrep.Span
import TemplatePrep.Text.Blank
import TemplatePrep.Text.Percent
import TemplatePrep.Text.Quoted
import TemplatePrep.Text.Unprintable
