import StackCalculator.Main
import StackCalculator.Proofs.Evaluation
import StackCalculator.Proofs.Scan
import StackCalculator.Proofs.Description
import StackCalculator.Proofs.PostfixGrammar
import StackCalculator.Proofs.Infix.RoundTrip
import StackCalculator.Proofs.Remainder
import StackCalculator.Proofs.Keypad.Display
import StackCalculator.Proofs.Script.Driving
import StackCalculator.Proofs.Session
import StackCalculator.Proofs.Script.Cut
import StackCalculator.Proofs.Script.Progress
import StackCalculator.Proofs.Script.Sequence
import StackCalculator.Proofs.Script.Result
import StackCalculator.Proofs.Script.Resumption
import StackCalculator.Proofs.Gap
import StackCalculator.Proofs.Script.Shape
import StackCalculator.Proofs.Script.Written
import StackCalculator.Proofs.Script.Coverage
import StackCalculator.Proofs.Script.Entries
import StackCalculator.Proofs.Kinds
import StackCalculator.Proofs.Script.Operands
import StackCalculator.Proofs.LateBinding
import StackCalculator.Proofs.Keypad.Store
import StackCalculator.Proofs.Script.Dotted
import StackCalculator.Proofs.Script.Blanked
import StackCalculator.Proofs.Script.Ignored
import StackCalculator.Proofs.Operand
import StackCalculator.Proofs.Assignment
import StackCalculator.Proofs.Termination
