/-
  Modules: all that a source says.

  * `Listing.ofLines` reads the statements of given lines one after the other;
  * `Stub.nodes` reads a function that was set aside;
  * `Module.ofText` reads a whole source, and `Module.expand` adds the nodes of
    all functions that were set aside.
-/
import LlvmAsm.Metadata.Extraction
import LlvmAsm.Outline
import LlvmAsm.Settings
import LlvmAsm.Source
import LlvmAsm.Statement

namespace LlvmAsm

/-! ## Statements in a row -/

/-- The nodes of logical lines, in order. Lines without a node are left out. -/
def nodesOf : List LogicalLine → Reading (List Node)
  | [] => pure []
  | line :: lines => do
    let node ← Statement.ofLogicalLine line
    let nodes ← nodesOf lines
    return node.toList ++ nodes

/-- The nodes and the stubs of some lines. -/
structure Listing where
  nodes : List Node
  stubs : List Stub
deriving DecidableEq, Repr

/-- The listing of the lines that follow line `base`. They are joined to logical
    lines before the first one is read. -/
def Listing.ofLines (deferred : Bool) (base : Nat) (lines : List Text) : Reading Listing := do
  let outline ← Outline.ofLines deferred base lines
  let nodes ← nodesOf outline.lines
  return ⟨nodes, outline.stubs⟩

/-- The nodes of a function that was set aside, with the numbers of its lines in
    the source. -/
def Stub.nodes (s : Stub) : Reading (List Node) :=
  Listing.nodes <$> Listing.ofLines false (s.number - 1) s.lines

/-- The nodes of several functions that were set aside. -/
def Stub.allNodes : List Stub → Reading (List Node)
  | [] => pure []
  | s :: stubs => do
    let nodes ← s.nodes
    let more ← allNodes stubs
    return nodes ++ more

/-! ## Modules -/

/-- All that a source says. -/
structure Module where
  dialect : Dialect
  nodes : List Node
  stubs : List Stub
  types : Registry
  metadata : Metadata
deriving DecidableEq, Repr

namespace Module

/-- Reads lines into a module whose types are added to those already known. The
    types that are known in the end are given in any case. -/
def ofLines (s : Settings) (known : Registry) (lines : List Text) :
    Except Failure Module × Registry :=
  let (left, metadata) := Metadata.extract 0 lines
  let (listing, known) := (Listing.ofLines (!s.readBodies) 0 left).run known
  (listing.map fun l => ⟨s.dialectOf lines, l.nodes, l.stubs, known, metadata⟩, known)

/-- Reads a source. -/
def ofText (s : Settings) (text : Text) : Except Failure Module :=
  (ofLines s .empty (Source.lines s.extendedAsDouble text)).1

/-- The module with the nodes of all functions that were set aside. Their types
    are collected in a registry of their own first. -/
def expand (m : Module) : Except Failure Module := do
  let (nodes, known) := (Stub.allNodes m.stubs).run .empty
  return { m with nodes := m.nodes ++ (← nodes), types := m.types.learn known.names }

end Module

end LlvmAsm
