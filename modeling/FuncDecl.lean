import FuncDecl.CommandLine.Run
import FuncDecl.Declaration.Session
import FuncDecl.Main
import FuncDecl.Token.Cursor
import FuncDecl.Proofs.Source.Agreement
import FuncDecl.Proofs.Source.Braces
import FuncDecl.Proofs.Source.Coverage
import FuncDecl.Proofs.Source.Structure
import FuncDecl.Proofs.Declaration.Frame
import FuncDecl.Proofs.Declaration.Sessions
import FuncDecl.Proofs.Declaration.Registry
import FuncDecl.Proofs.Declaration.Printing
import FuncDecl.Proofs.Declaration.Grammar
import FuncDecl.Proofs.Token.Partition
import FuncDecl.Proofs.Token.Spacing
import FuncDecl.Proofs.Source.Accounts
import FuncDecl.Proofs.Source.Positions
import FuncDecl.Proofs.Source.QuotedLines
import FuncDecl.Proofs.Source.Warnings
import FuncDecl.Proofs.Source.Concatenation
import FuncDecl.Proofs.Source.Output
import FuncDecl.Proofs.Source.TypeBraces
import FuncDecl.Proofs.Scope.Lookup
import FuncDecl.Proofs.Declaration.Respelling
import FuncDecl.Proofs.Declaration.ArrangedParams
import FuncDecl.Proofs.Declaration.Decorators
import FuncDecl.Proofs.CommandLine.Outcome
import FuncDecl.Proofs.Source.Enclosure
import FuncDecl.Proofs.Token.Joining
import FuncDecl.Proofs.Emission
import FuncDecl.Proofs.Project.Discovery
