import Abacus.CommandLine.Run
import Abacus.Main
import Abacus.Proofs.Descent.Completeness
import Abacus.Proofs.Eval.Checked
import Abacus.Proofs.FrontEnds
import Abacus.Scope.Forest
import Abacus.Proofs.Program.WellFormed
import Abacus.Proofs.Program.Printing
import Abacus.Proofs.Eval.Lookup
import Abacus.Proofs.Session.Composition
import Abacus.Proofs.Tree.Document
import Abacus.Proofs.Session.Values
import Abacus.Proofs.Files.Writing
import Abacus.Proofs.Json.RoundTrip
import Abacus.Proofs.Json.Reading
import Abacus.Proofs.Text.Utf8
import Abacus.Proofs.CommandLine.Emission
import Abacus.Proofs.Automaton.Lazy
import Abacus.Proofs.Session.Errors
import Abacus.Proofs.Shell.Robustness
import Abacus.Proofs.CommandLine.TreeFile
import Abacus.Proofs.Eval.Agreement
import Abacus.Proofs.Store.Frame
import Abacus.Proofs.Store.Refinement
import Abacus.Proofs.Session.Tracing
import Abacus.Proofs.Token.Segmentation
import Abacus.Proofs.Descent.Blame
import Abacus.Proofs.Session.Atomicity
import Abacus.Proofs.Session.PrintedValues
import Abacus.Proofs.Eval.Arithmetic
import Abacus.Proofs.Eval.Strictness
import Abacus.Proofs.Token.Rendering
import Abacus.Proofs.Scope.History
import Abacus.Proofs.Descent.Locality
import Abacus.Proofs.Store.Nesting
