import ProgramTree.Proofs.DefaultParent
import ProgramTree.Proofs.Defaults
import ProgramTree.Proofs.Drawings.Lines
import ProgramTree.Proofs.Isolation
import ProgramTree.Proofs.Iteration
import ProgramTree.Proofs.Lifetimes
import ProgramTree.Proofs.Loops.Counted
import ProgramTree.Proofs.Loops.DoWhile
import ProgramTree.Proofs.Nesting
import ProgramTree.Proofs.Operations
import ProgramTree.Proofs.Outlines.Children
import ProgramTree.Proofs.Outlines.Unshown
import ProgramTree.Proofs.Overloads
import ProgramTree.Proofs.Pages
import ProgramTree.Proofs.Sources.Unplaced
import ProgramTree.Proofs.Stepwise
import ProgramTree.Proofs.Subscripts
import ProgramTree.Proofs.Terms.Bodies
import ProgramTree.Proofs.Terms.Declared
import ProgramTree.Proofs.Throwing
import ProgramTree.Proofs.Twins.Texts
import ProgramTree.Proofs.Types.Composing
import ProgramTree.Scenario
import ProgramTree.Scope.Run
import ProgramTree.Session
import ProgramTree.Sketch
