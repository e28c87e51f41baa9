/-
  Nodes: what a statement of the assembly text means.

  * `Node` is a statement with its line and the name that it defines or refers
    to, `Kind` what the statement is and its parts;
  * `Stub` is a function whose body has been set aside, to be read later.
-/
import LlvmAsm.Operand

namespace LlvmAsm

/-- The targets of a branch. -/
inductive Branch where
  | unconditional (label : Text)
  | conditional (condition : Operand) (labelTrue labelFalse : Text)
deriving DecidableEq, Repr

/-- A case of a switch: a value and the label of its target. -/
structure SwitchCase where
  value : Text
  label : Text
deriving DecidableEq, Repr

/-- A call of a function. -/
structure Call where
  callee : Text
  /-- the type written after the word `call` -/
  ty : Text
  /-- further types between that type and the callee -/
  functionType : Text
  params : List Operand
  /-- the result is not assigned -/
  standalone : Bool
deriving DecidableEq, Repr

/-- An incoming edge of a phi: the block it comes from and the value it
    brings. -/
structure Incoming where
  label : Text
  value : Operand
deriving DecidableEq, Repr

/-- The signature of a function. -/
structure Signature where
  returnType : Text
  params : List Operand
  hasVarArgs : Bool
deriving DecidableEq, Repr

/-- The names of the parameters. -/
def Signature.paramIdents (s : Signature) : List Text := s.params.filterMap Operand.ident?

/-- What a statement is. -/
inductive Kind where
  | load (valueType pointerType : Text) (pointer : Operand)
  | store (valueType : Text) (value : Operand) (pointerType : Text) (pointer : Operand)
  | branch (targets : Branch)
  | ret (ty : Text) (value : Option Operand)
  | switch (ty value defaultLabel : Text) (cases : List SwitchCase)
  | call (site : Call)
  | invoke (site : Call) (toLabel unwindLabel : Text)
  /-- `ty` is the type of the pointer to the space that is allocated -/
  | alloca (ty allocatedType allocatedNum : Text)
  | phi (ty : Text) (params : List Incoming)
  | operation (op : Text) (variant : Option Text) (ty : Text) (params : List Operand)
  | bitcast (ty fromType value : Text)
  | elementPointer (ty : Text) (params : List Operand)
  | extractValue (ty aggregate : Text) (indexes : List Text)
  | indirectBranch (ty : Text) (pointer : Operand) (destinations : List Text)
  | label
  /-- `ctors` are the constructors that run before the program, which are kept
      instead of a value -/
  | globalVariable (ty : Text) (isExternal : Bool) (value : Option Constant)
      (ctors : Option (List Text))
  | typeDefinition (fields : List Text) (packed : Bool)
  | aliasOf (ty aliasee : Text)
  | function (signature : Signature)
  | functionEnd
  | declaration (signature : Signature)
  | unreachable
deriving DecidableEq, Repr

/-- A statement. -/
structure Node where
  number : Nat
  /-- the name that is assigned, and else the name that the statement is about -/
  ident : Option Text
  /-- the value of the statement is given a name -/
  assigned : Bool
  kind : Kind
deriving DecidableEq, Repr

/-- A function with the lines of its definition, which are still to be read. -/
structure Stub where
  ident : Text
  params : List Operand
  hasVarArgs : Bool
  /-- the number of the first line -/
  number : Nat
  lines : List Text
deriving DecidableEq, Repr

end LlvmAsm
