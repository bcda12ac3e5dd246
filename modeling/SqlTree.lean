import SqlTree.Builder.Query
import SqlTree.Builder.Select
import SqlTree.Node
import SqlTree.Sql.Text
import SqlTree.Proofs.Json.Numeral
import SqlTree.Proofs.Sql.Writing
import SqlTree.Proofs.Double.Text
import SqlTree.Proofs.Json.Depth
import SqlTree.Proofs.Storage.Read
import SqlTree.Proofs.Tree.Leaves
import SqlTree.Proofs.Storage.ReadBack
import SqlTree.Proofs.Storage.RoundTrip
import SqlTree.Proofs.Sql.Scan
import SqlTree.Proofs.Tree.Emptied
import SqlTree.Proofs.Sql.Literals
import SqlTree.Proofs.Sql.Lexing
import SqlTree.Proofs.Tree.Plain
import SqlTree.Proofs.Sql.Lexemes
import SqlTree.Proofs.Sql.Grammar
import SqlTree.Proofs.Sql.Reading
import SqlTree.Proofs.Sql.Unambiguous
import SqlTree.Proofs.Builder.Select
import SqlTree.Proofs.Storage.Table
import SqlTree.Proofs.Storage.Depth
import SqlTree.Proofs.Tree.Draft
import SqlTree.Proofs.Storage.Draft
import SqlTree.Proofs.Json.Grammar
import SqlTree.Proofs.Json.Spelling
import SqlTree.Proofs.Storage.Plain
import SqlTree.Proofs.Storage.Reorder
import SqlTree.Proofs.Double.Rounding
import SqlTree.Proofs.Double.Shortest
import SqlTree.Proofs.Double.Denotes
import SqlTree.Proofs.Json.Unique
import SqlTree.Proofs.Sql.Signs
import SqlTree.Proofs.Sql.Same
import SqlTree.Proofs.Storage.Unique
import SqlTree.Proofs.Tree.Contexts
import SqlTree.Proofs.Sql.Compositional
import SqlTree.Proofs.Double.Error
import SqlTree.Proofs.Double.Scaling
import SqlTree.Proofs.Double.Reading
import SqlTree.Proofs.Storage.Doubles
import SqlTree.Proofs.Double.Finite
import SqlTree.Proofs.Storage.Hereditary
import SqlTree.Proofs.Storage.Finite
import SqlTree.Proofs.Double.Nearest
import SqlTree.Proofs.Double.Fewest
import SqlTree.Proofs.Double.Ties
import SqlTree.Proofs.Double.Positional
import SqlTree.Proofs.Sql.Constants
import SqlTree.Proofs.Storage.Numbers
import SqlTree.Proofs.Tree.Subnodes
import SqlTree.Proofs.Sql.Flow
import SqlTree.Proofs.Sql.Enclosed
import SqlTree.Proofs.Sql.Spacing
import SqlTree.Proofs.Json.Holes
import SqlTree.Proofs.Storage.Slots
import SqlTree.Proofs.Storage.Members
import SqlTree.Proofs.Double.Prefix
import SqlTree.Proofs.Json.Cut
import SqlTree.Proofs.Json.Trailing
import SqlTree.Proofs.Storage.Cut
import SqlTree.Proofs.Builder.Runs
import SqlTree.Proofs.Builder.Query
import SqlTree.Proofs.Storage.Integers
import SqlTree.Proofs.Log.Runs
import SqlTree.Proofs.Json.Alone
import SqlTree.Proofs.Storage.Identifiers
