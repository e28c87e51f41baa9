/-
  The JSON forms of nodes and of their parts.

  The form of a node begins with its line and its name; then comes the tag of
  its kind (`Kind.tag`) with the parts of that kind. An operand and a constant
  carry a tag as well. Members that would say nothing are left out where this
  is stated.
-/
import LlvmAsm.Json
import LlvmAsm.Node

namespace LlvmAsm

open Json (orNull listOf)

/-- The members of the form of an expression, given the forms of its operands. -/
def Expression.members {α : Type} (e : Expression α) (params : List Json) : List (Text × Json) :=
  [("op", .text e.op), ("variant", orNull .text e.variant), ("ty", .text e.ty),
   ("params", .list params), ("ident", orNull .text e.ident)]

/-- The member that tells the kind of a value. -/
def tagMember (tag : Text) : Text × Json := ("intertype", .text tag)

namespace Operand

mutual

/-- The form of an operand. Whether a scalar is passed by value is only told if
    it is. -/
def json : Operand → Json
  | scalar ty ident byVal =>
    .object ([tagMember "value", ("ty", .text ty), ("ident", .text ident)]
      ++ if byVal then [("byVal".toList, .bool true)] else [])
  | struct ty values =>
    .object [tagMember "structValue", ("ty", .text ty), ("values", .list (jsonItems values))]
  | expr e => .object (tagMember "expr" :: e.members (jsonItems e.params))
  | blockAddress func label =>
    .object [tagMember "blockAddress", ("func", .text func), ("label", .text label)]
  | varargs => .object [tagMember "varargs"]

/-- The forms of operands. -/
def jsonItems : List Operand → List Json
  | [] => []
  | o :: os => json o :: jsonItems os

end

/-- The form of a list of operands. -/
def jsonList (os : List Operand) : Json := .list (jsonItems os)

end Operand

/-- The form of an expression. -/
def Expression.json (e : Expression Operand) : Json :=
  .object (e.members (Operand.jsonItems e.params))

namespace Constant

mutual

/-- The form of a constant. -/
def json : Constant → Json
  | value ty v => .object [tagMember "value", ("ty", .text ty), ("value", .text v)]
  | emptyStruct ty => .object [tagMember "emptyStruct", ("ty", .text ty)]
  | string ty text => .object [tagMember "string", ("ty", .text ty), ("text", .text text)]
  | struct ty contents =>
    .object [tagMember "struct", ("ty", .text ty), ("contents", .list (jsonItems contents))]
  | list ty contents =>
    .object [tagMember "list", ("ty", .text ty), ("contents", .list (jsonItems contents))]
  | expr e => .object (tagMember "expr" :: e.members (Operand.jsonItems e.params))
  | blockAddress func label =>
    .object [tagMember "blockAddress", ("func", .text func), ("label", .text label)]

/-- The forms of constants. -/
def jsonItems : List Constant → List Json
  | [] => []
  | c :: cs => json c :: jsonItems cs

end

end Constant

/-! ## Nodes -/

/-- The members of the form of a call. -/
def Call.members (c : Call) : List (Text × Json) :=
  [("callee", .text c.callee), ("ty", .text c.ty), ("functionType", .text c.functionType),
   ("params", Operand.jsonList c.params), ("standalone", .bool c.standalone)]

/-- The members of the form of a signature, which names the parameters once
    more if `idents` is set. -/
def Signature.members (s : Signature) (idents : Bool) : List (Text × Json) :=
  [("returnType".toList, .text s.returnType), ("params".toList, Operand.jsonList s.params)]
    ++ (if idents then [("paramIdents".toList, listOf .text s.paramIdents)] else [])
    ++ [("hasVarArgs".toList, .bool s.hasVarArgs)]

namespace Kind

/-- The tag of a kind. -/
def tag : Kind → Text
  | load .. => "load"
  | store .. => "store"
  | branch .. => "branch"
  | ret .. => "return"
  | switch .. => "switch"
  | call .. => "call"
  | invoke .. => "invoke"
  | alloca .. => "alloca"
  | phi .. => "phi"
  | operation .. => "mathop"
  | bitcast .. => "bitcast"
  | elementPointer .. => "getelementptr"
  | extractValue .. => "extractvalue"
  | indirectBranch .. => "indirectbr"
  | label => "label"
  | globalVariable .. => "globalVariable"
  | typeDefinition .. => "type"
  | aliasOf .. => "alias"
  | function .. => "function"
  | functionEnd => "functionEnd"
  | declaration .. => "functionStub"
  | unreachable => "unreachable"

/-- The members of the form of a kind, its tag apart. -/
def members : Kind → List (Text × Json)
  | load valueType pointerType pointer =>
    [("valueType", .text valueType), ("pointerType", .text pointerType),
     ("pointer", pointer.json)]
  | store valueType value pointerType pointer =>
    [("valueType", .text valueType), ("value", value.json), ("pointerType", .text pointerType),
     ("pointer", pointer.json)]
  | branch (.unconditional target) => [("form", .text "unconditional"), ("label", .text target)]
  | branch (.conditional condition labelTrue labelFalse) =>
    [("form", .text "conditional"), ("condition", condition.json),
     ("labelTrue", .text labelTrue), ("labelFalse", .text labelFalse)]
  | ret ty value => [("ty", .text ty), ("value", orNull Operand.json value)]
  | switch ty value defaultLabel cases =>
    [("ty", .text ty), ("value", .text value), ("defaultLabel", .text defaultLabel),
     ("switchLabels", listOf (fun c =>
       .object [("value", .text c.value), ("label", .text c.label)]) cases)]
  | call site => site.members
  | invoke site toLabel unwindLabel =>
    [("call", .object site.members), ("toLabel", .text toLabel),
     ("unwindLabel", .text unwindLabel)]
  | alloca ty allocatedType allocatedNum =>
    [("ty", .text ty), ("allocatedType", .text allocatedType),
     ("allocatedNum", .text allocatedNum)]
  | phi ty params =>
    [("ty", .text ty), ("params", listOf (fun p =>
      .object [("label", .text p.label), ("value", p.value.json)]) params)]
  | operation op variant ty params =>
    [("op", .text op), ("variant", orNull .text variant), ("ty", .text ty),
     ("params", Operand.jsonList params)]
  | bitcast ty fromType value =>
    [("ty", .text ty), ("fromType", .text fromType), ("value", .text value)]
  | elementPointer ty params => [("ty", .text ty), ("params", Operand.jsonList params)]
  | extractValue ty aggregate indexes =>
    [("ty", .text ty), ("aggregate", .text aggregate), ("indexes", listOf .text indexes)]
  | indirectBranch ty pointer destinations =>
    [("ty", .text ty), ("pointer", pointer.json), ("destinations", listOf .text destinations)]
  | globalVariable ty isExternal value ctors =>
    [("ty", .text ty), ("external", .bool isExternal), ("value", orNull Constant.json value),
     ("ctors", orNull (listOf .text) ctors)]
  | typeDefinition fields packed => [("fields", listOf .text fields), ("packed", .bool packed)]
  | aliasOf ty aliasee => [("ty", .text ty), ("aliasee", .text aliasee)]
  | function signature => signature.members true
  | declaration signature => signature.members false
  | label | functionEnd | unreachable => []

end Kind

/-- The form of a node. The name is left out if there is none, and that it is
    assigned is only told if it is. -/
def Node.json (n : Node) : Json :=
  .object ([("lineNum".toList, .nat n.number)]
    ++ (n.ident.toList.map fun ident => ("ident".toList, .text ident))
    ++ (if n.assigned then [("assigned".toList, .bool true)] else [])
    ++ tagMember n.kind.tag :: n.kind.members)

/-- The form of a function that is set aside. -/
def Stub.json (s : Stub) : Json :=
  .object [("ident", .text s.ident), ("params", Operand.jsonList s.params),
    ("hasVarArgs", .bool s.hasVarArgs), ("lineNum", .nat s.number),
    ("lines", listOf .text s.lines)]

end LlvmAsm
