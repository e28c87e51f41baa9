/-
  Lines of assembly text: before their tokens are read, and after.

  * `LogicalLine` is the text of one statement with the number of its first
    source line;
  * `Line` has the tokens of a statement, and its indentation, which tells
    statements in a body from definitions at the top;
  * `Failure` is the reason why a line has no meaning. It names a line, and its
    `Cause` holds whatever the message shows.
-/
import LlvmAsm.Token.Reader

namespace LlvmAsm

/-- The text of a statement. -/
structure LogicalLine where
  text : Text
  /-- the number of the first source line -/
  number : Nat
deriving DecidableEq, Repr

/-- How far a line is indented. -/
inductive Indent where
  /-- no blank: a definition or a label -/
  | topLevel
  /-- two blanks: a statement in a body -/
  | statement
  /-- the right-hand side of an assignment -/
  | continuation
  /-- any other number of blanks -/
  | other (blanks : Nat)
deriving DecidableEq, Repr

/-- The indentation by a number of blanks. -/
def Indent.ofBlanks : Nat → Indent
  | 0 => topLevel
  | 2 => statement
  | n => other n

/-- A statement with its tokens. -/
structure Line where
  /-- the text, without the blanks at its ends -/
  text : Text
  number : Nat
  indent : Indent
  tokens : List Token
deriving DecidableEq, Repr

/-! ## Failures -/

/-- What a parser looks for among the tokens of a line. -/
inductive Expected where
  /-- a token at the given position, counted from 0 -/
  | token (position : Nat)
  /-- a name before an equals sign -/
  | assignment
  /-- a right-hand side with a value -/
  | assignedValue
  /-- an operation and its operands in parentheses -/
  | expression
  /-- the operands of an expression -/
  | expressionOperands
  /-- the operands of a block address -/
  | blockAddressOperands
  /-- a function and a label -/
  | functionAndLabel
  /-- the targets of a conditional branch -/
  | branchLabels
  /-- a value, a comma and a label -/
  | switchCase
  /-- the address of an indirect branch -/
  | branchAddress
  /-- both destinations of an invoke -/
  | invokeDestinations
  /-- the word `call` or `invoke` -/
  | callWord
  /-- the operands of an expression that is called -/
  | calledOperands
  /-- the arguments of a call -/
  | callArguments
  /-- the parameters of a function -/
  | parameterList
  /-- a value and a pointer -/
  | storeOperands
  /-- a pointer -/
  | loadPointer
  /-- a type that begins the operands of an address -/
  | addressBase
  /-- the type of the operand with the given index, counted from 0 -/
  | operandType (op : Text) (index : Nat)
  /-- two operands of one type -/
  | equalTypes
  /-- a value and a label -/
  | phiEntry
  /-- the initial value of a global variable -/
  | initializer
deriving DecidableEq, Repr

/-- What is not supported although it is well formed. -/
inductive Feature where
  | inlineAssembly
  /-- a call of something that is neither a name nor an expression -/
  | callTarget (text : Text)
deriving DecidableEq, Repr

/-- Why a line has no meaning. -/
inductive Cause where
  /-- no category fits the line -/
  | unknownStatement (text : Text)
  /-- a constant is not of any known form -/
  | malformedConstant (tokens : List Token)
  /-- the line needs an unsupported feature -/
  | unsupported (feature : Feature)
  /-- the enclosers or quotes of a text do not fit together -/
  | imbalance (reason : Imbalance)
  /-- the tokens lack what is expected -/
  | lacking (expected : Expected) (tokens : List Token)
  /-- an operand has no tokens -/
  | emptyOperand
  /-- an assignment stands where its right-hand side should -/
  | nestedAssignment
  /-- the operands of a line would end before they begin -/
  | reversedRange
  /-- the body of a function goes on to the end of the source -/
  | openFunction
  /-- the table of a switch goes on to the end of the source -/
  | openTable
deriving DecidableEq, Repr

/-- A line without a meaning, and why it has none. -/
structure Failure where
  number : Nat
  cause : Cause
deriving DecidableEq, Repr

/-! ## Reading the tokens of a line -/

/-- The tokens of the text of line `number`. -/
def tokensOf (text : Text) (number : Nat) : Except Failure (List Token) :=
  (tokenize text).mapError fun reason => ⟨number, .imbalance reason⟩

namespace Line

/-- The line with the given text and number. Tabulators do not indent. -/
def ofText (text : Text) (number : Nat) : Except Failure Line := do
  let tokens ← tokensOf text number
  return {
    text := text.trim
    number := number
    indent := .ofBlanks (text.takeWhile (· = ' ')).length
    tokens := tokens }

/-- The failure of a line that lacks something. -/
def lacks (line : Line) (expected : Expected) (tokens : List Token) : Failure :=
  ⟨line.number, .lacking expected tokens⟩

end Line

end LlvmAsm
