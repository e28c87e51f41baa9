/-
  The category of a line: which kind of statement it is.

  A category belongs to an indentation, or to all of them, and asks for a
  certain word near the beginning of the line and for a number of tokens. Some
  lines fit several categories: `Category.ofLine` takes the first one of
  `Category.all` that fits.
-/
import LlvmAsm.Line
import LlvmAsm.Vocabulary

namespace LlvmAsm

/-- The kinds of statements, as far as a line's first tokens tell. -/
inductive Category where
  | store | assign | branch | ret | switch | unreachable | indirectBranch
  | load | operation | bitcast | elementPointer | alloca | extractValue | phi
  | label | declaration | global | functionHeader | functionEnd
  | call | discard | invoke
deriving DecidableEq, Repr

namespace Category

/-- All categories, the preferred ones first. -/
def all : List Category :=
  [store, assign, branch, ret, switch, unreachable, indirectBranch,
   load, operation, bitcast, elementPointer, alloca, extractValue, phi,
   label, declaration, global, functionHeader, functionEnd,
   call, discard, invoke]

theorem mem_all (c : Category) : c ∈ all := by
  cases c <;> decide

/-- The indentation that a category belongs to; none if any will do. -/
def indent? : Category → Option Indent
  | store | assign | branch | ret | switch | unreachable | indirectBranch => some .statement
  | load | operation | bitcast | elementPointer | alloca | extractValue | phi =>
    some .continuation
  | label | declaration | global | functionHeader | functionEnd => some .topLevel
  | call | discard | invoke => none

/-- The text of the token at a place, or nothing. -/
def textAt (ts : List Token) (place : Nat) : Text := (ts[place]?.map Token.text).getD []

/-- The word stands first or second. -/
def leads (w : Text) (ts : List Token) : Bool := textAt ts 0 = w || textAt ts 1 = w

/-- The word stands first. -/
def begins (w : Text) (ts : List Token) : Bool := textAt ts 0 = w

/-- The tokens have what the category asks for. -/
def fits (c : Category) (ts : List Token) : Bool :=
  match c with
  | store => ts.length ≥ 5 && leads "store" ts
  | assign => ts.length ≥ 3 && (beforeComment ts).any (Token.isWord "=")
  | branch => ts.length ≥ 3 && begins "br" ts
  | ret => ts.length ≥ 2 && begins "ret" ts
  | switch => ts.length ≥ 2 && begins "switch" ts
  | unreachable => begins "unreachable" ts
  | indirectBranch => ts.length ≥ 3 && begins "indirectbr" ts
  | load => ts.length ≥ 3 && leads "load" ts
  | operation => ts.length ≥ 3 && Vocabulary.operations.contains (textAt ts 0)
  | bitcast => ts.length ≥ 3 && begins "bitcast" ts
  | elementPointer => ts.length ≥ 3 && begins "getelementptr" ts
  | alloca => ts.length ≥ 2 && begins "alloca" ts
  | extractValue => ts.length ≥ 3 && begins "extractvalue" ts
  | phi => ts.length ≥ 3 && begins "phi" ts
  | label =>
    (ts.head?.any fun t => !t.isGroup && t.text.endsWith ":") ||
      ts.length ≥ 3 && textAt ts 1 = "<label>"
  | declaration => ts.length ≥ 4 && begins "declare" ts
  | global => ts.length ≥ 3 && textAt ts 1 = "="
  | functionHeader =>
    ts.length ≥ 4 && begins "define" ts && textAt ts (ts.length - 1) = ['{']
  | functionEnd => begins ['}'] ts
  | call => ts.length ≥ 3 && leads "call" ts
  | discard => begins ";" ts || begins "target" ts
  | invoke => ts.length ≥ 3 && begins "invoke" ts

/-- The category may be that of a line with this indentation and these tokens. -/
def suits (indent : Indent) (ts : List Token) (c : Category) : Bool :=
  c.indent?.all (· = indent) && c.fits ts

/-- The category of a line. -/
def ofLine (line : Line) : Except Failure Category :=
  match all.find? (suits line.indent line.tokens) with
  | some c => .ok c
  | none => .error ⟨line.number, .unknownStatement line.text⟩

theorem suits_of_ofLine {line : Line} {c : Category} (h : ofLine line = .ok c) :
    c.suits line.indent line.tokens = true := by
  simp only [ofLine] at h
  split at h
  · rename_i c' hfind
    cases h
    exact List.find?_some hfind
  · cases h

end Category

end LlvmAsm
