/-
  The words in which failures are reported.

  Every message begins with the number of the line. Where tokens are at fault
  the message ends with their JSON form without blanks (`Token.dump`).
-/
import LlvmAsm.Json
import LlvmAsm.Line

namespace LlvmAsm

/-! ## Tokens as JSON -/

/-- The name of an encloser. -/
def Encloser.name : Encloser → Text
  | bracket => "bracket"
  | paren => "paren"
  | angle => "angle"
  | brace => "brace"

namespace Token

mutual

/-- The JSON form of a token: its text, and for a group its encloser and the
    tokens inside. -/
def json : Token → Json
  | word t => .object [("text", .text t)]
  | group t e inner =>
    .object [("text", .text t),
      ("group", .object [("encloser", .text e.name), ("tokens", .list (jsonItems inner))])]

/-- The JSON forms of tokens. -/
def jsonItems : List Token → List Json
  | [] => []
  | t :: ts => json t :: jsonItems ts

end

/-- The JSON text of a token list. -/
def dump (ts : List Token) : Text := (Json.list (jsonItems ts)).compact

end Token

/-! ## Messages -/

/-- The complaint about what is lacking. -/
def Expected.message : Expected → Text
  | token position => "expected a token at position " ++ Text.ofNat position
  | assignment => "malformed assignment"
  | assignedValue => "assignment without a value"
  | expression => "not a constant expression"
  | expressionOperands => "constant expression without operands"
  | blockAddressOperands => "blockaddress without operands"
  | functionAndLabel => "blockaddress needs a function and a label"
  | branchLabels => "conditional branch without labels"
  | switchCase => "malformed switch case"
  | branchAddress => "indirectbr without an address"
  | invokeDestinations => "invoke without normal and unwind destinations"
  | callWord => "expected call or invoke"
  | calledOperands => "call through an expression without operands"
  | callArguments => "call without an argument list"
  | parameterList => "function without a parameter list"
  | storeOperands => "store needs a value and a pointer"
  | loadPointer => "load without a pointer"
  | addressBase => "getelementptr without a typed base"
  | operandType op index => op ++ " is missing operand " ++ Text.ofNat (index + 1)
  | equalTypes => "select operands differ in type"
  | phiEntry => "phi entry needs a value and a label"
  | initializer => "global without an initializer"

/-- The name of an unsupported feature. -/
def Feature.name : Feature → Text
  | inlineAssembly => "inline assembly"
  | callTarget text => "call target `" ++ text ++ "`"

/-- The complaint about enclosers and quotes. -/
def Imbalance.message (i : Imbalance) : Text :=
  match i.fault with
  | .stray closer => "unbalanced '" ++ [closer] ++ "' in: " ++ i.text
  | .unclosed => "unclosed encloser in: " ++ i.text
  | .unterminated => "unterminated string in: " ++ i.text

namespace Cause

/-- The complaint about a broken rule, if the cause is one. -/
def violation? : Cause → Option Text
  | imbalance reason => some reason.message
  | lacking expected tokens => some (expected.message ++ ": " ++ Token.dump tokens)
  | emptyOperand => some "empty operand"
  | nestedAssignment => some "assignment reached a construct parser"
  | reversedRange => some "operands end before they begin"
  | openFunction => some "function body is never closed"
  | openTable => some "switch table is never closed"
  | unknownStatement _ | malformedConstant _ | unsupported _ => none

/-- The message for a cause. -/
def message (cause : Cause) : Text :=
  match cause with
  | unknownStatement text => "cannot triage line: " ++ text
  | malformedConstant tokens => "invalid constant segment: " ++ Token.dump tokens
  | unsupported feature => feature.name ++ " cannot be translated"
  | other => "internal invariant violated: " ++ (violation? other).getD []

end Cause

/-- The message for a failure. -/
def Failure.message (f : Failure) : Text :=
  "line " ++ Text.ofNat f.number ++ ": " ++ f.cause.message

end LlvmAsm
