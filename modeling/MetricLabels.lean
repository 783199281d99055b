import MetricLabels.Json.Reader
import MetricLabels.Main
import MetricLabels.Proofs.Selector.Words
import MetricLabels.Proofs.Token.Stream
import MetricLabels.Proofs.Selector.FirstFault
import MetricLabels.Proofs.Text.QuotedBody
import MetricLabels.Proofs.Token.Spelling
import MetricLabels.Proofs.Token.Tiles
import MetricLabels.Proofs.Selector.WholeText
import MetricLabels.Proofs.LabelSet.Slots
import MetricLabels.Proofs.Selector.Printing
import MetricLabels.Proofs.Selector.RoundTrip
import MetricLabels.Proofs.Text.Lines
import MetricLabels.Proofs.Text.LongestNumeral
import MetricLabels.Proofs.Token.Tiling
import MetricLabels.Proofs.Selector.LineFeeds
import MetricLabels.Proofs.Template.Layout
import MetricLabels.Proofs.Template.Reading
import MetricLabels.Proofs.LabelSet.Edits
import MetricLabels.Proofs.LabelSet.History
import MetricLabels.Proofs.LabelSet.Equality
import MetricLabels.Proofs.Token.Lookahead
import MetricLabels.Proofs.Selector.Dialects
import MetricLabels.Proofs.Template.EscapeModes
import MetricLabels.Proofs.Template.Writing
import MetricLabels.Proofs.Selector.Sequence
import MetricLabels.Proofs.Json.Symbols
import MetricLabels.Proofs.Json.Reading
import MetricLabels.Proofs.Codec
import MetricLabels.Proofs.Decoding
import MetricLabels.Proofs.Template.Failure
import MetricLabels.Proofs.Template.Joints
import MetricLabels.Proofs.Template.Idempotence
import MetricLabels.Proofs.Selector.Spacing
import MetricLabels.Proofs.LabelSet.Validation
import MetricLabels.Proofs.CommandLine.Caret
import MetricLabels.Proofs.CommandLine.Rendering
import MetricLabels.Proofs.Text.CursorRuns
import MetricLabels.Proofs.Token.NumeralReads
import MetricLabels.Proofs.Token.TokenReads
import MetricLabels.Proofs.Token.QuotedForms
