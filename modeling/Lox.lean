import Lox.ErrorKind
import Lox.Main
import Lox.Proofs.Erasure.Session
import Lox.Proofs.Grammar.Recovery
import Lox.Proofs.Machine.Completeness
import Lox.Proofs.Machine.Discipline
import Lox.Proofs.Machine.Visible
import Lox.Proofs.Number.Plain
import Lox.Proofs.Safety.Session
import Lox.Proofs.Scope.History
import Lox.Proofs.Shell.Incomplete
import Lox.Proofs.Token.Tokenization
import Lox.Shell.World
import Lox.Tree.Listing
import Lox.Tree.Outline
import Lox.Proofs.Token.Concatenation
import Lox.Proofs.Token.Layout
import Lox.Proofs.Number.Comparison
import Lox.Proofs.Number.Nearest
import Lox.Proofs.Number.Shortest
import Lox.Proofs.Number.Text
import Lox.Proofs.Text.CodePointOrder
import Lox.Proofs.Text.Quoted
import Lox.Proofs.Value.Comparison
import Lox.Proofs.Outline.Form
import Lox.Proofs.Outline.Tree
import Lox.Proofs.Outline.Unique
import Lox.Proofs.Grammar.Passage
import Lox.Proofs.Source.Flawed
import Lox.Proofs.Grammar.Diagnosis
import Lox.Proofs.Grammar.Loop
import Lox.Proofs.Signal.Confinement
import Lox.Proofs.Machine.Unmentioned
import Lox.Proofs.Shell.CommandLine
import Lox.Proofs.Shell.Account
import Lox.Proofs.Shell.Blocks
import Lox.Proofs.Grammar.Provenance
import Lox.Proofs.Value.ReadBack
import Lox.Proofs.Project.Discovery
import Lox.Proofs.Shell.Parts
