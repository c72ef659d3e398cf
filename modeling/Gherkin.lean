import Gherkin.Main
import Gherkin.Proofs.Parser.Comments
import Gherkin.Proofs.Parser.Conservation
import Gherkin.Proofs.Parser.Dialects
import Gherkin.Proofs.Parser.Errors
import Gherkin.Proofs.Parser.Independence
import Gherkin.Proofs.Parser.Insertion
import Gherkin.Proofs.Parser.Locations
import Gherkin.Proofs.Parser.Recovery
import Gherkin.Proofs.Parser.RoundTrip
import Gherkin.Proofs.Parser.Sentences
import Gherkin.Proofs.Parser.Tables
import Gherkin.Proofs.Parser.TagRuns
import Gherkin.Proofs.Run.DocStrings
import Gherkin.Proofs.Run.Limit
import Gherkin.Proofs.Reader.Visits
import Gherkin.Proofs.Text.Words
import Gherkin.Proofs.Text.Encoding
import Gherkin.Proofs.Parser.Inputs
import Gherkin.Proofs.Parser.Titles
import Gherkin.Proofs.Retelling.Document
import Gherkin.Proofs.Retelling.Lines
import Gherkin.Proofs.Retelling.Nodes
import Gherkin.Proofs.Retelling.Builders
import Gherkin.Proofs.Retelling.Readers
import Gherkin.Proofs.Retelling.Sources
import Gherkin.Proofs.Parser.Indentation
import Gherkin.Proofs.Parser.BlankLines
import Gherkin.Proofs.Run.Classification
import Gherkin.Proofs.Parser.WellFormed
import Gherkin.Proofs.Rendering.DocStrings
import Gherkin.Proofs.Text.Columns
import Gherkin.Proofs.Dialect.Requests
import Gherkin.Proofs.Dialect.LanguageTags
import Gherkin.Proofs.Run.Trials
import Gherkin.Proofs.Builder.Balance
import Gherkin.Proofs.CommandLine.Validation
import Gherkin.Proofs.CommandLine.Tokens
