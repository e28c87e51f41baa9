/-
  From a line to the node of its statement.

  * `Statement.ofCategory` reads a line as a statement of a given category;
  * `Statement.splitAssignment` takes the name off an assignment and leaves its
    right-hand side as a line of its own;
  * `Statement.ofLine` and `Statement.ofLogicalLine` read a line of any
    category.
-/
import LlvmAsm.Category
import LlvmAsm.Definition.Function
import LlvmAsm.Definition.Symbol
import LlvmAsm.Instruction.Access
import LlvmAsm.Instruction.Calls
import LlvmAsm.Instruction.Computation
import LlvmAsm.Instruction.Flow

namespace LlvmAsm.Statement

open Reading

/-- The node of a line that belongs to the given category. A comment or a
    setting of the target has none, and an assignment has to be split before. -/
def ofCategory (c : Category) (line : Line) : Reading (Option Node) :=
  match c with
  | .discard => pure none
  | .assign => fail ⟨line.number, .nestedAssignment⟩
  | .store => some <$> Instruction.store line
  | .load => some <$> Instruction.load line
  | .alloca => some <$> Instruction.alloca line
  | .elementPointer => some <$> Instruction.elementPointer line
  | .extractValue => some <$> Instruction.extractValue line
  | .bitcast => some <$> Instruction.bitcast line
  | .operation => some <$> Instruction.operation line
  | .phi => some <$> Instruction.phi line
  | .branch => some <$> Instruction.branch line
  | .ret => some <$> Instruction.ret line
  | .switch => some <$> Instruction.switch line
  | .indirectBranch => some <$> Instruction.indirectBranch line
  | .unreachable => pure (some (Instruction.unreachable line))
  | .call => some <$> Instruction.call line
  | .invoke => some <$> Instruction.invoke line
  | .label => some <$> Definition.label line
  | .declaration => some <$> Definition.declaration line
  | .functionHeader => some <$> Definition.functionHeader line
  | .functionEnd => pure (some (Definition.functionEnd line))
  | .global => some <$> Definition.symbol line

/-- The name and the right-hand side of an assignment. The name is the token
    right before the first equals sign; the right-hand side is indented as the
    continuation that it is. -/
def splitAssignment (line : Line) : Except Failure (Text × Line) :=
  match findWord? "=" line.tokens with
  | some (position + 1) =>
    let name := (line.tokens[position]?.map Token.text).getD []
    let tokens := line.tokens.drop (position + 2)
    .ok (name, ⟨render tokens, line.number, .continuation, tokens⟩)
  | _ => .error (line.lacks .assignment line.tokens)

/-- The node of a statement whose value is given a name. -/
def assigned (line : Line) (name : Text) (node : Node) : Node :=
  ⟨line.number, some name, true, node.kind⟩

/-- The node of a line, if it has one. -/
def ofLine (line : Line) : Reading (Option Node) := do
  let c ← Category.ofLine line
  if c ≠ .assign then ofCategory c line
  else
    let (name, value) ← splitAssignment line
    let c ← Category.ofLine value
    match ← ofCategory c value with
    | some node => return some (assigned line name node)
    | none => fail (line.lacks .assignedValue line.tokens)

/-- The node of a logical line, if it has one. -/
def ofLogicalLine (line : LogicalLine) : Reading (Option Node) := do
  ofLine (← Line.ofText line.text line.number)

end LlvmAsm.Statement
