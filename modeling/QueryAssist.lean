import QueryAssist.Main
import QueryAssist.Parse.Sharing
import QueryAssist.Proofs.Chain.Nesting
import QueryAssist.Proofs.Chain.Open
import QueryAssist.Proofs.Chain.Matching
import QueryAssist.Proofs.Chain.Regular
import QueryAssist.Proofs.Chain.Bound
import QueryAssist.Proofs.Chain.Frame
import QueryAssist.Proofs.Chain.Misfit
import QueryAssist.Proofs.Grammar.Lookahead
import QueryAssist.Proofs.Grammar.Avoiding
import QueryAssist.Proofs.Layout.Boundary
import QueryAssist.Proofs.Layout.Document
import QueryAssist.Proofs.Chain.Run
import QueryAssist.Proofs.Chain.Sentence
import QueryAssist.Proofs.Layout.Scanning
import QueryAssist.Proofs.Grammar.Closing
import QueryAssist.Proofs.Layout.Definitions
import QueryAssist.Proofs.Chain.Opening
import QueryAssist.Proofs.Layout.Ending
import QueryAssist.Proofs.Open.Selection
import QueryAssist.Proofs.Open.Literal
import QueryAssist.Proofs.Open.Input
import QueryAssist.Proofs.Open.Selected
import QueryAssist.Proofs.Open.Inward
import QueryAssist.Proofs.Open.Alias
import QueryAssist.Proofs.Open.Unaliased
import QueryAssist.Proofs.Open.Unfinished
import QueryAssist.Proofs.Open.Spreading
import QueryAssist.Proofs.Layout.Headers
import QueryAssist.Proofs.Cursor.Locate
import QueryAssist.Proofs.Cursor.Prefix
import QueryAssist.Proofs.Layout.Tiling
import QueryAssist.Proofs.Layout.Fragments
import QueryAssist.Proofs.Layout.Passing
import QueryAssist.Proofs.Cursor.Ahead
import QueryAssist.Proofs.Cursor.Cut
import QueryAssist.Proofs.Cursor.Placing
import QueryAssist.Proofs.Typing.Boundary
import QueryAssist.Proofs.Typing.Appended
import QueryAssist.Proofs.Typing.Resting
import QueryAssist.Proofs.Typing.Place
import QueryAssist.Proofs.Typing.Names
import QueryAssist.Proofs.Typing.Suggestion
import QueryAssist.Proofs.Typing.Resolving
import QueryAssist.Proofs.Chain.Around
import QueryAssist.Proofs.Typing.Offer
import QueryAssist.Proofs.Typing.EmptyLine
import QueryAssist.Proofs.Typing.SilentLine
import QueryAssist.Proofs.Typing.HeadContext
import QueryAssist.Proofs.Typing.FirstToken
import QueryAssist.Proofs.Typing.VariableType
import QueryAssist.Proofs.Typing.DirectiveName
import QueryAssist.Proofs.Typing.TypeCondition
import QueryAssist.Proofs.Typing.Narrowing
import QueryAssist.Proofs.Typing.Overlap
import QueryAssist.Proofs.Sdl.TypeReference
import QueryAssist.Proofs.Layout.Ignored
import QueryAssist.Proofs.Json.RoundTrip
import QueryAssist.Proofs.Files.Replace
import QueryAssist.Proofs.Files.Frame
import QueryAssist.Proofs.Settings.OneSetting
import QueryAssist.Proofs.Settings.Request
import QueryAssist.Proofs.Settings.Refinement
import QueryAssist.Proofs.Chain.Separated
import QueryAssist.Proofs.CommandLine.Completing
import QueryAssist.Proofs.CommandLine.EndOfRow
import QueryAssist.Proofs.CommandLine.SchemaErrors
import QueryAssist.Proofs.Json.Grammar
import QueryAssist.Proofs.Json.Leaves
import QueryAssist.Proofs.Json.Reading
import QueryAssist.Proofs.Json.LineBreaks
import QueryAssist.Proofs.Json.Limits
import QueryAssist.Proofs.Settings.Loading
import QueryAssist.Proofs.Cursor.Quote
import QueryAssist.Proofs.Layout.StringLiteral
import QueryAssist.Proofs.Sharing.Snapshot
