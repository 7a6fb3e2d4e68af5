import LazyConfig.Token.Lexer
import LazyConfig.Syntax.Parser
import LazyConfig.Syntax.Path
import LazyConfig.Number.Basic
import LazyConfig.Calendar.Iso
import LazyConfig.Text.Quoted
import LazyConfig.Value.Compare
import LazyConfig.Value.Merge
import LazyConfig.World.Basic
import LazyConfig.Evaluation.Error
import LazyConfig.Document.Store
import LazyConfig.Evaluation.Describe
import LazyConfig.Conversion.Form
import LazyConfig.Evaluation.View
import LazyConfig.Evaluation.Operator
import LazyConfig.Evaluation.Follow
import LazyConfig.Evaluation.Inclusion
import LazyConfig.Evaluation.Conversion
import LazyConfig.Evaluation.Machine
import LazyConfig.Document.Access
import LazyConfig.Yaml.Writer
import LazyConfig.Proofs.Document.Load
import LazyConfig.Proofs.Resolution.Endless
import LazyConfig.Proofs.Conversion.Interpolation
import LazyConfig.Proofs.Syntax.Document
import LazyConfig.Proofs.Syntax.Printer
import LazyConfig.Proofs.Token.Spans
import LazyConfig.Proofs.Inclusion.Inlining
import LazyConfig.Proofs.Token.LineEnds
import LazyConfig.Proofs.Document.Pending
import LazyConfig.Proofs.Document.Reload
import LazyConfig.Proofs.Inclusion.Chain
import LazyConfig.Proofs.Resolution.Report
import LazyConfig.Proofs.Resolution.Spine
import LazyConfig.Proofs.Token.Adjacent
import LazyConfig.Proofs.Syntax.PathGrammar
import LazyConfig.Proofs.Syntax.Placeless
import LazyConfig.Proofs.Token.Legible
import LazyConfig.Proofs.Syntax.PathRoundTrip
import LazyConfig.Proofs.Syntax.CanonicalPath
import LazyConfig.Proofs.Slice.Selection
import LazyConfig.Proofs.Document.Default
import LazyConfig.Proofs.Failure.Document
import LazyConfig.Proofs.Operator.Power
import LazyConfig.Proofs.Operator.Container
import LazyConfig.Proofs.Token.Delimited
import LazyConfig.Proofs.Token.Sign
import LazyConfig.Proofs.Token.Underscore
import LazyConfig.Proofs.Token.LoneReturns
import LazyConfig.Proofs.Token.Respelled
import LazyConfig.Proofs.Syntax.Outline
import LazyConfig.Proofs.Document.Total
import LazyConfig.Proofs.Conversion.Standard
import LazyConfig.Proofs.Document.Identifier
