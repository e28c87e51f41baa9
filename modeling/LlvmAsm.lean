import LlvmAsm.Command.FileTree
import LlvmAsm.Main
import LlvmAsm.Proofs.Expansion
import LlvmAsm.Proofs.Renumbering.Listing
import LlvmAsm.Proofs.Location
import LlvmAsm.Proofs.Annotation
import LlvmAsm.Proofs.Scope
import LlvmAsm.Proofs.Assignment
import LlvmAsm.Proofs.WorkList
import LlvmAsm.Proofs.Token.Reader
import LlvmAsm.Proofs.Token.Pass
import LlvmAsm.Proofs.Token.Pieces
import LlvmAsm.Proofs.Token.Arrangement
import LlvmAsm.Proofs.Token.Content
import LlvmAsm.Proofs.Token.Yield
import LlvmAsm.Proofs.Token.Part
import LlvmAsm.Proofs.Token.Render
import LlvmAsm.Proofs.Token.Brace
import LlvmAsm.Proofs.Type.Grammar
import LlvmAsm.Proofs.Type.Token
import LlvmAsm.Proofs.Token.Comment
import LlvmAsm.Proofs.Comment
import LlvmAsm.Proofs.Trailing
import LlvmAsm.Proofs.Argument
import LlvmAsm.Proofs.Variable
import LlvmAsm.Proofs.Element
import LlvmAsm.Proofs.Initializer.RoundTrip
import LlvmAsm.Proofs.Composition
import LlvmAsm.Proofs.Value
import LlvmAsm.Proofs.Arithmetic
import LlvmAsm.Proofs.Coverage.Operand
import LlvmAsm.Proofs.Parameter
import LlvmAsm.Proofs.Coverage.Node
import LlvmAsm.Proofs.SwitchTable
import LlvmAsm.Proofs.Joining
import LlvmAsm.Proofs.Phi
import LlvmAsm.Proofs.Signature
import LlvmAsm.Proofs.Prototype
import LlvmAsm.Proofs.Allocation
import LlvmAsm.Proofs.ElementPointer
import LlvmAsm.Proofs.Call
import LlvmAsm.Proofs.Block
import LlvmAsm.Proofs.Type.Definition
import LlvmAsm.Proofs.Segment
import LlvmAsm.Proofs.Token.Invariant
import LlvmAsm.Proofs.Modifier
import LlvmAsm.Proofs.Constructors
import LlvmAsm.Proofs.Replace
import LlvmAsm.Proofs.Source
import LlvmAsm.Proofs.Positional.Access
import LlvmAsm.Proofs.Positional.Bytes
import LlvmAsm.Proofs.Positional.Reading
import LlvmAsm.Proofs.Positional.Operand
import LlvmAsm.Proofs.Positional.Constant
import LlvmAsm.Proofs.Positional.Instruction
import LlvmAsm.Proofs.Positional.Calls
import LlvmAsm.Proofs.Positional.Definition
import LlvmAsm.Proofs.Positional.Statement
import LlvmAsm.Proofs.Positional.Listing
import LlvmAsm.Proofs.Session
