import SceneBundler.Catalog.Reading
import SceneBundler.Main
import SceneBundler.Proofs.Entry.SingleEntry
import SceneBundler.Proofs.Entry.Dangling
import SceneBundler.Proofs.Entry.RootSelection
import SceneBundler.Proofs.Entry.UnusedName
import SceneBundler.Proofs.Preparation.Decision
import SceneBundler.Proofs.Preparation.ReportedLine
import SceneBundler.Proofs.Balance.Settled
import SceneBundler.Proofs.Markup.View
import SceneBundler.Proofs.Markup.Balanced
import SceneBundler.Proofs.Dialect.Settled
import SceneBundler.Proofs.Dialect.Enumeration
import SceneBundler.Proofs.Dialect.Balanced
import SceneBundler.Proofs.Text.Pieces
import SceneBundler.Proofs.Source.Written
import SceneBundler.Proofs.Text.Scan
import SceneBundler.Proofs.Typed.Nesting
import SceneBundler.Proofs.Typed.Phrase
import SceneBundler.Proofs.Typed.Angled
import SceneBundler.Proofs.Typed.Grouped
import SceneBundler.Proofs.Text.Lacking
import SceneBundler.Proofs.Text.Opening
import SceneBundler.Proofs.Typed.Lines
import SceneBundler.Proofs.Typed.Joined
import SceneBundler.Proofs.Typed.Quiet
import SceneBundler.Proofs.Typed.Erasure
import SceneBundler.Proofs.Typed.Variable
import SceneBundler.Proofs.Dialect.Deletion
import SceneBundler.Proofs.Typed.Slots
import SceneBundler.Proofs.Typed.Parenthesis
import SceneBundler.Proofs.Typed.Signature
import SceneBundler.Proofs.Imports.Completeness
import SceneBundler.Proofs.Imports.Removed
import SceneBundler.Proofs.Imports.Aliases
import SceneBundler.Proofs.Imports.Declarations
import SceneBundler.Proofs.Untyped.Signature
import SceneBundler.Proofs.Json.RoundTrip
import SceneBundler.Proofs.Project.Payload
import SceneBundler.Proofs.Sandbox.Answer
import SceneBundler.Proofs.Sandbox.Classification
import SceneBundler.Proofs.Project.Placement
import SceneBundler.Proofs.CommandLine.Steps
import SceneBundler.Proofs.CommandLine.Reporting
import SceneBundler.Proofs.Preparation.StatementRemoval
import SceneBundler.Proofs.Text.Reach
import SceneBundler.Proofs.Balance.Description
import SceneBundler.Proofs.Source.Partner
import SceneBundler.Proofs.Dialect.Inside
import SceneBundler.Proofs.Lexical.Document
import SceneBundler.Proofs.Source.Flat
import SceneBundler.Proofs.Dialect.Peeling
import SceneBundler.Proofs.Applied.Call
import SceneBundler.Proofs.Applied.Quiet
import SceneBundler.Proofs.Applied.Remains
import SceneBundler.Proofs.Balance.CloserLine
import SceneBundler.Proofs.Balance.OrphanLine
import SceneBundler.Proofs.Balance.Spared
import SceneBundler.Proofs.Text.Splicing
import SceneBundler.Proofs.Balance.Pairing
import SceneBundler.Proofs.Catalog.Reading
import SceneBundler.Proofs.Enumeration.Standing
import SceneBundler.Proofs.Sandbox.Chunking
import SceneBundler.Proofs.Sandbox.CutIdentifier
import SceneBundler.Proofs.Configuration.Settings
import SceneBundler.Proofs.Files.Access
import SceneBundler.Proofs.CommandLine.Bundling
