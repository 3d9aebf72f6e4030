import QueryLint.Segment.Patch
import QueryLint.Pattern.Reader
import QueryLint.Template.Render
import QueryLint.Token.Lexeme
import QueryLint.Token.Stream
import QueryLint.Grammar.Expr
import QueryLint.Grammar.Table
import QueryLint.Grammar.Compile
import QueryLint.Dialect.Ansi
import QueryLint.Dialect.Registry
import QueryLint.Match.Apply
import QueryLint.Match.Context
import QueryLint.Match.Scan
import QueryLint.Match.Grammar
import QueryLint.Parse
import QueryLint.Fix.Apply
import QueryLint.Fix.Splice
import QueryLint.Rule.Basic
import QueryLint.Rule.Crawl
import QueryLint.Rule.Capitalisation
import QueryLint.Rule.Whitespace
import QueryLint.Rule.Registry
import QueryLint.Lint.Noqa
import QueryLint.Lint.FixLoop
import QueryLint.Lint.Linter
import QueryLint.Grammar.Table.Edit
import QueryLint.Rule.Probe
import QueryLint.Proofs.Match.Tidy
import QueryLint.Proofs.Match.Scan
import QueryLint.Proofs.Match.Sequence
import QueryLint.Proofs.Match.Repeat
import QueryLint.Proofs.Match.Grammar
import QueryLint.Proofs.Match.Apply
import QueryLint.Proofs.Parse
import QueryLint.Proofs.Grammar.Brackets
import QueryLint.Proofs.Grammar.Texts
import QueryLint.Proofs.Grammar.FirstSet
import QueryLint.Proofs.Match.Alongside
import QueryLint.Proofs.Match.AlongsideGrammar
import QueryLint.Proofs.Match.Transparent
import QueryLint.Proofs.Fix.Words
import QueryLint.Proofs.Fix.Reached
import QueryLint.Proofs.Template.Raw
import QueryLint.Proofs.Token.Placed
import QueryLint.Proofs.Token.Tiling
import QueryLint.Proofs.Fix.Markup
import QueryLint.Proofs.Fix.Splice
import QueryLint.Proofs.Fix.Plain
import QueryLint.Proofs.Fix.Spot
import QueryLint.Proofs.Fix.Exact
import QueryLint.Proofs.Grammar.Hints
import QueryLint.Proofs.Match.Prune
import QueryLint.Proofs.Match.Traced
import QueryLint.Proofs.Match.Settled
import QueryLint.Proofs.Segment.GivenUp
import QueryLint.Proofs.Parse.GivenUp
import QueryLint.Proofs.Template.LoopFree
import QueryLint.Proofs.Template.Pieces
import QueryLint.Proofs.Template.Cover
import QueryLint.Proofs.Template.Spelled
import QueryLint.Proofs.Template.Edited
import QueryLint.Proofs.Fix.Described
import QueryLint.Proofs.Segment.Renamed
import QueryLint.Proofs.Match.Renamed
import QueryLint.Proofs.Parse.Renamed
import QueryLint.Proofs.Fix.Renamed
import QueryLint.Proofs.Rule.Crawl
import QueryLint.Proofs.Lint.Again
import QueryLint.Proofs.Parse.Drawn
import QueryLint.Proofs.Rule.Choice
import QueryLint.Proofs.Rule.Standard
import QueryLint.Proofs.Lint.History
import QueryLint.Proofs.Grammar.Layout
import QueryLint.Proofs.Grammar.LaidOut
import QueryLint.Proofs.Grammar.Filed
import QueryLint.Proofs.Grammar.Checked
import QueryLint.Proofs.Grammar.ReadBack
import QueryLint.Proofs.Grammar.Fits
import QueryLint.Proofs.Dialect.Ansi
import QueryLint.Proofs.Parse.Whole
import QueryLint.Proofs.Lint.Untouched
import QueryLint.Proofs.Match.Counted
import QueryLint.Proofs.Match.Bracketed
import QueryLint.Proofs.Match.Recased
import QueryLint.Proofs.Match.Even
import QueryLint.Proofs.Match.Balance
import QueryLint.Proofs.Grammar.Balance
import QueryLint.Proofs.Rule.View
import QueryLint.Proofs.Lint.Settled
import QueryLint.Proofs.Token.Balance
import QueryLint.Proofs.Segment.Listing
import QueryLint.Proofs.Rule.Visits
import QueryLint.Proofs.Lint.Masked
import QueryLint.Proofs.Template.Point
import QueryLint.Proofs.Template.Loop
import QueryLint.Proofs.Fix.Repeated
import QueryLint.Proofs.Template.Consistent
import QueryLint.Proofs.Template.Literal
import QueryLint.Proofs.Template.Mapped
import QueryLint.Proofs.Template.Blocks
import QueryLint.Proofs.Token.Laid
import QueryLint.Proofs.Match.Anchored
import QueryLint.Proofs.Match.Rounds
import QueryLint.Proofs.Grammar.Returns
import QueryLint.Proofs.Grammar.Rings
import QueryLint.Proofs.Place
import QueryLint.Proofs.Segment.Seated
import QueryLint.Proofs.Parse.Seated
import QueryLint.Proofs.Match.Punctual
import QueryLint.Proofs.Match.Longest
import QueryLint.Proofs.Match.Parts
import QueryLint.Proofs.Match.Exact
import QueryLint.Proofs.Match.Limited
import QueryLint.Proofs.Match.Delimited
import QueryLint.Proofs.Match.Terminated
import QueryLint.Proofs.Match.Started
import QueryLint.Proofs.Match.Ahead
import QueryLint.Proofs.Match.Overlooked
import QueryLint.Proofs.Match.Unwound
import QueryLint.Proofs.Match.TopLevel
import QueryLint.Proofs.Match.Glued
import QueryLint.Proofs.Segment.Placing
import QueryLint.Proofs.Segment.LaidOut
import QueryLint.Proofs.Fix.Merged
import QueryLint.Proofs.Lint.Directives
import QueryLint.Proofs.Token.Placeholders
import QueryLint.Proofs.Token.Unlexable
import QueryLint.Proofs.Pattern.Leftmost
import QueryLint.Proofs.Match.Appended
import QueryLint.Proofs.Match.Classed
import QueryLint.Proofs.Parse.Unparsable
import QueryLint.Proofs.Token.Divided
import QueryLint.Proofs.Fix.Apart
import QueryLint.Proofs.Grammar.Trimmed
import QueryLint.Proofs.Rule.Blanks
import QueryLint.Proofs.Rule.Spacing
import QueryLint.Proofs.Rule.Casing
import QueryLint.Proofs.Parse.Ordinary
import QueryLint.Proofs.Token.Spaced
import QueryLint.Proofs.Parse.Tokens
import QueryLint.Proofs.Dialect.Settled
