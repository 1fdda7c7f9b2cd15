import ArrowScript.Main
import ArrowScript.Proofs.Evaluation.Breaking
import ArrowScript.Proofs.Evaluation.Choice
import ArrowScript.Proofs.Evaluation.ElementAccess
import ArrowScript.Proofs.Evaluation.Isolation
import ArrowScript.Proofs.Evaluation.Outcomes
import ArrowScript.Proofs.Evaluation.Snapshot
import ArrowScript.Proofs.Grammar.Independence
import ArrowScript.Proofs.Grammar.Precedence
import ArrowScript.Proofs.Grammar.Recovery
import ArrowScript.Proofs.Grammar.Retention
import ArrowScript.Proofs.Native.Containers
import ArrowScript.Proofs.Native.Matches
import ArrowScript.Proofs.Native.Writing
import ArrowScript.Proofs.Scope.Assignment
import ArrowScript.Proofs.Scope.Nearest
import ArrowScript.Proofs.Scope.Secrecy
import ArrowScript.Proofs.Scope.Union
import ArrowScript.Proofs.Session.FirstOrder
import ArrowScript.Proofs.Session.Shape
import ArrowScript.Proofs.Session.Tracing
import ArrowScript.Proofs.Store.Printing
import ArrowScript.Proofs.Token.LineEnds
import ArrowScript.Proofs.Token.Literals
import ArrowScript.Proofs.Token.Strays
import ArrowScript.Proofs.Tree.Documents
import ArrowScript.Proofs.Tree.Spans
import ArrowScript.Proofs.Value.Keys
