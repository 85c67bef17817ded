import KotlinTree.LogFormat
import KotlinTree.Main
import KotlinTree.Syntax.Listing
import KotlinTree.Proofs.Token.Partition
import KotlinTree.Proofs.Token.Trivia
import KotlinTree.Proofs.Token.StringEnd
import KotlinTree.Proofs.Grammar.Body
import KotlinTree.Proofs.Grammar.Declaration
import KotlinTree.Proofs.Grammar.Expression
import KotlinTree.Proofs.Grammar.Growth
import KotlinTree.Proofs.Grammar.Placement
import KotlinTree.Proofs.Grammar.Text
import KotlinTree.Proofs.Grammar.Names
import KotlinTree.Proofs.Syntax.Span
import KotlinTree.Proofs.Syntax.LeafText
import KotlinTree.Proofs.Grammar.Unit
import KotlinTree.Proofs.RoundTrip
import KotlinTree.Proofs.WellFormed
import KotlinTree.Proofs.Attribution.Declaration
import KotlinTree.Proofs.Attribution.Expression
import KotlinTree.Proofs.Attribution.Path
import KotlinTree.Proofs.Attribution.ImportMember
import KotlinTree.Proofs.Attribution.Renaming
import KotlinTree.Proofs.Attribution.AccessOrder
import KotlinTree.Proofs.Attribution.Once.Name
import KotlinTree.Proofs.Attribution.Once.Declaration
import KotlinTree.Proofs.Attribution.Once.Expression
import KotlinTree.Proofs.Binding.Unit
import KotlinTree.Proofs.Binding.Site
import KotlinTree.Proofs.Project.Agreement
import KotlinTree.Proofs.Types.Package
import KotlinTree.Proofs.Types.Consistent
import KotlinTree.Proofs.Types.Stub
import KotlinTree.Proofs.Binding.WellFormed
import KotlinTree.Proofs.Types.Local
import KotlinTree.Proofs.Binding.Order
import KotlinTree.Proofs.Project.Order
import KotlinTree.Proofs.Attribution.Offer
import KotlinTree.Proofs.Attribution.Keeps
import KotlinTree.Proofs.Attribution.Sound.Name
import KotlinTree.Proofs.Attribution.Sound.Declaration
import KotlinTree.Proofs.Attribution.Sound.Expression
import KotlinTree.Proofs.Binding.Typed
import KotlinTree.Proofs.Project.Known
import KotlinTree.Proofs.Attribution.Curtail
import KotlinTree.Proofs.Attribution.Curtail.Name
import KotlinTree.Proofs.Types.Subtyping
import KotlinTree.Proofs.Attribution.Curtail.Declaration
import KotlinTree.Proofs.Attribution.Curtail.Expression
import KotlinTree.Proofs.Attribution.Renames
import KotlinTree.Proofs.Grammar.LambdaArrow
import KotlinTree.Proofs.Attribution.Standing
import KotlinTree.Proofs.Attribution.Reading
import KotlinTree.Proofs.Attribution.Reading.Name
import KotlinTree.Proofs.Attribution.Reading.Declaration
import KotlinTree.Proofs.Attribution.Reading.Expression
import KotlinTree.Proofs.Attribution.Settled
import KotlinTree.Proofs.Attribution.Settled.Unit
import KotlinTree.Proofs.Project.Learned
import KotlinTree.Proofs.Attribution.Nearest
import KotlinTree.Proofs.Attribution.Balance.Expression
import KotlinTree.Proofs.Grammar.Keeps.Expression
import KotlinTree.Proofs.Grammar.Precedence
import KotlinTree.Proofs.Grammar.Climbing
import KotlinTree.Proofs.Grammar.PrecedenceTree
import KotlinTree.Proofs.Grammar.Receiver
import KotlinTree.Proofs.Grammar.Accessor
import KotlinTree.Proofs.Grammar.Indifferent.Expression
import KotlinTree.Proofs.Grammar.KeptSource
import KotlinTree.Proofs.Grammar.EndOfFile
import KotlinTree.Proofs.PrintedSpan
import KotlinTree.Proofs.Attribution.Used
import KotlinTree.Proofs.Attribution.NullSafe
import KotlinTree.Proofs.Types.BreadthFirst
import KotlinTree.Proofs.Types.LeastUpperBound
import KotlinTree.Proofs.Types.Accessor
import KotlinTree.Proofs.Attribution.Elvis
import KotlinTree.Proofs.Attribution.Frames
import KotlinTree.Proofs.Attribution.Extension
import KotlinTree.Proofs.Attribution.Construct
import KotlinTree.Proofs.Attribution.UnknownType
import KotlinTree.Proofs.Types.Continues
import KotlinTree.Proofs.Binding.Callable
import KotlinTree.Proofs.Binding.Number
import KotlinTree.Proofs.LineMap
import KotlinTree.Proofs.ReportedLine
import KotlinTree.Proofs.Token.Comment
import KotlinTree.Proofs.Diagnostic
import KotlinTree.Proofs.Interner
import KotlinTree.Proofs.Types.Written
import KotlinTree.Proofs.Grammar.Untaken
import KotlinTree.Proofs.Grammar.Termination
import KotlinTree.Proofs.Grammar.Context
