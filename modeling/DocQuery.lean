import DocQuery.Command.Text
import DocQuery.Main
import DocQuery.Menu
import DocQuery.Proofs.Conditions
import DocQuery.Proofs.Parsed
import DocQuery.Proofs.Ranges
import DocQuery.Samples
import DocQuery.Session
import DocQuery.Upload
import DocQuery.Value.Node
import DocQuery.Proofs.Members
import DocQuery.Proofs.Comparisons
import DocQuery.Proofs.Alternatives
import DocQuery.Proofs.Clauses
import DocQuery.Proofs.CommaJoins
import DocQuery.Proofs.Accepted
import DocQuery.Proofs.FindCommands
import DocQuery.Proofs.Conjunctions
import DocQuery.Proofs.Notes
import DocQuery.Proofs.StageOrder
import DocQuery.Proofs.Groupings
import DocQuery.Proofs.Stages
import DocQuery.Proofs.Rows
import DocQuery.Proofs.GroupedRows
import DocQuery.Proofs.JoinedRows
import DocQuery.Proofs.Grammar
import DocQuery.Proofs.Phrases
import DocQuery.Proofs.ExactReaders
import DocQuery.Proofs.ExactStatements
import DocQuery.Proofs.Precedence
import DocQuery.Proofs.OneTable
import DocQuery.Proofs.Scanning
import DocQuery.Proofs.Lexemes
import DocQuery.Proofs.ReadLexemes
import DocQuery.Proofs.Rendering
import DocQuery.Proofs.Subqueries
import DocQuery.Proofs.Lines
import DocQuery.Proofs.Isolation
import DocQuery.Proofs.BatchedStatements
import DocQuery.Proofs.References
import DocQuery.Proofs.LiteralTexts
import DocQuery.Proofs.Rewording
import DocQuery.Proofs.Recasing
import DocQuery.Proofs.Layout
import DocQuery.Proofs.WrittenOrder
import DocQuery.Proofs.AggregateTests
import DocQuery.Proofs.SelectLists
import DocQuery.Proofs.ShellRuns
import DocQuery.Proofs.FilterTexts
import DocQuery.Proofs.PrintedFilters
import DocQuery.Proofs.TypedConditions
import DocQuery.Proofs.JoinClauses
import DocQuery.Proofs.Projections
import DocQuery.Proofs.JoinedPlaces
import DocQuery.Proofs.AllColumns
import DocQuery.Proofs.SortKeys
import DocQuery.Proofs.Searches
import DocQuery.Proofs.OutputFields
import DocQuery.Proofs.SummaryRows
import DocQuery.Proofs.LongestLexemes
import DocQuery.Proofs.ErrorPositions
import DocQuery.Proofs.StatementLists
import DocQuery.Proofs.JoinSplits
import DocQuery.Proofs.SecondPass
import DocQuery.Proofs.FindTexts
import DocQuery.Proofs.LiteralForms
import DocQuery.Proofs.QuotedForms
import DocQuery.Proofs.PrintedPipelines
import DocQuery.Proofs.ShellDocuments
import DocQuery.Proofs.Annotations
import DocQuery.Proofs.MemberLists
import DocQuery.Proofs.Clashes
import DocQuery.Proofs.TreeTexts
import DocQuery.Proofs.PrintedTrees
