import Graft.Text.Letter
import Graft.Text.Numeral
import Graft.Text.Blank
import Graft.Text.Visible
import Graft.Source.Cursor
import Graft.Modifiers
import Graft.Token.Kind
import Graft.Token.Basic
import Graft.Literal.Extent
import Graft.Literal.Number
import Graft.Token.Operator
import Graft.Token.Lexer
import Graft.Name.TypeKey
import Graft.Resolution
import Graft.Namespace.Tree
import Graft.Double.Shortest
import Graft.Text.Quoted
import Graft.Literal.Text
import Graft.Syntax.Node
import Graft.Parser.Expr
import Graft.Parser.File
import Graft.Registry.Display
import Graft.Lookup
import Graft.Constant.Evaluation
import Graft.Program.Registration
import Graft.Program.Visits
import Graft.Program.Imports
import Graft.Program.Compilation
import Graft.Generator.Pass
import Graft.Project
import Graft.Proofs.Lookup.Levels
import Graft.Proofs.Lookup.Resolved
import Graft.Proofs.Lookup.Imports
import Graft.Proofs.Constant.Derivation
import Graft.Proofs.Project.History
import Graft.Proofs.Token.Word
import Graft.Proofs.Literal.Seam
import Graft.Proofs.Literal.Written
import Graft.Proofs.Literal.Passes
import Graft.Proofs.Token.Bounds
import Graft.Proofs.Token.Seam
import Graft.Proofs.Token.Reads
import Graft.Proofs.Token.Spells
import Graft.Proofs.Token.Enclosed
import Graft.Proofs.Syntax.Named
import Graft.Proofs.Parser.Nesting
import Graft.Proofs.Parser.Yields
import Graft.Proofs.Parser.Productions
import Graft.Proofs.Parser.Names
import Graft.Proofs.Parser.Numbers
import Graft.Proofs.Parser.Body
import Graft.Proofs.Parser.Containment
import Graft.Proofs.Parser.TypeTokens
import Graft.Proofs.Parser.Commas
import Graft.Proofs.Parser.LoneField
import Graft.Proofs.Parser.Initializers
import Graft.Proofs.Parser.StringLiterals
import Graft.Proofs.Program.Sites
import Graft.Proofs.Program.Registered
import Graft.Proofs.Program.Alike
import Graft.Proofs.Program.Members
import Graft.Proofs.Program.Complete
import Graft.Proofs.Constant.Congruence
import Graft.Proofs.Program.Extension
import Graft.Proofs.Generator.Hints
import Graft.Proofs.Generator.Correspondence
import Graft.Proofs.Source.Places
import Graft.Proofs.Token.Places
import Graft.Proofs.Parser.Termination
import Graft.Proofs.Program.Positions
import Graft.Proofs.Program.Attributes
import Graft.Proofs.Syntax.Likeness
import Graft.Proofs.Constant.Imports
import Graft.Proofs.Program.Identity
import Graft.Proofs.Generator.Usages
import Graft.Proofs.Generator.MetadataNames
import Graft.Proofs.Generator.Outcomes
import Graft.Proofs.Project.Atomic
import Graft.Proofs.Program.Summary
import Graft.Proofs.Program.Consistency
import Graft.Proofs.Program.Outline
import Graft.Proofs.Program.Traced
import Graft.Proofs.Program.Locality
import Graft.Proofs.Program.Stored
import Graft.Proofs.Program.Written
import Graft.Proofs.Program.TypeParams
import Graft.Proofs.Program.GlobalTargets
import Graft.Proofs.Program.Indexed
import Graft.Proofs.Program.Visits
import Graft.Proofs.Program.Spelled
import Graft.Proofs.Program.Reached
import Graft.Proofs.Syntax.Unplaced
import Graft.Proofs.Parser.Agreement
import Graft.Proofs.Parser.AgreedPhrases
import Graft.Proofs.Parser.AgreedFiles
import Graft.Proofs.Syntax.Formed
import Graft.Proofs.Parser.TypePhrases
import Graft.Proofs.Parser.TypeText
import Graft.Proofs.Lookup.Displayed
import Graft.Proofs.Program.Qualified
import Graft.Proofs.Program.ReadBack
import Graft.Proofs.Parser.IntegerLiterals
import Graft.Proofs.Parser.EscapeErrors
import Graft.Proofs.Parser.Suffixes
import Graft.Proofs.Token.ByteOrderMark
import Graft.Proofs.Token.Canonical
import Graft.Proofs.Constant.Arithmetic
import Graft.Proofs.Parser.TypeRoundTrip
import Graft.Proofs.Parser.StrayBrace
import Graft.Proofs.Namespace.Graph
import Graft.Proofs.Parser.TypeGrammar
import Graft.Proofs.Parser.ConstantPhrases
import Graft.Proofs.Program.Recorded
import Graft.Proofs.Syntax.Traversal
import Graft.Proofs.Parser.Stops
import Graft.Proofs.Source.Hull
import Graft.Proofs.Generator.MergedArtifacts
