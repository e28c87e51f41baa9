/-
  Statements in a body.

  A statement of a function usually is a single line that begins with two blanks. What the
  listing of such a line is depends on its tokens only, and these are known for texts that
  yield them (`Yields`). This file has what every such statement needs, whatever its kind.

  * `Listing.result_of_single`: if the outline of some lines is a single logical line, then
    their listing is that of the statement;
  * `Statement.ofText_eq_ok`: the line of a text whose tokens are known;
  * `Text.trim_indented`: a line loses its indentation when it is joined to another one.
-/
import LlvmAsm.Proofs.Comment
import LlvmAsm.Proofs.Initializer.RoundTrip

namespace LlvmAsm

open Reading Token

/-! ## Characters of names -/

section
variable {c : Char}

/-- White space is in no name. There are few such characters, so each is looked up. -/
theorem isNameChar_of_isBlank (h : isBlank c = true) : isNameChar c = false := by
  have hranges : ∀ r ∈ blankRanges, ∀ i < r.2 + 1 - r.1,
      isNameChar (Char.ofNat (r.1 + i)) = false := by decide +kernel
  obtain ⟨r, hr, hc⟩ := List.any_eq_true.1 h
  simp only [Bool.and_eq_true, decide_eq_true_eq] at hc
  have hrange := hranges r hr (c.toNat - r.1) (by omega)
  rwa [Nat.add_sub_cancel' hc.1, Char.ofNat_toNat] at hrange

theorem not_isBlank_of_isNameChar (h : isNameChar c = true) : isBlank c = false := by
  rw [Bool.eq_false_iff]
  intro hblank
  rw [isNameChar_of_isBlank hblank] at h
  cases h

theorem IntLiteral.isNameChar_of_mem (l : IntLiteral) (hc : c ∈ l.text) : isNameChar c = true := by
  rcases l.isLiteralChar_of_mem hc with hdigit | rfl
  · exact isNameChar_of_isDigit hdigit
  · decide

end

/-- A local name is a token. -/
theorem PlainName.yields_local (name : PlainName) :
    Yields ('%' :: name.text) [word ('%' :: name.text)] := by
  simpa using name.yields_sigil (c := '%') (by decide) (List.forall_mem_nil _)

/-- A type is a token. -/
theorem Ty.yields (T : Ty) : Yields T.print [T.token] := by
  simpa using T.yields_print (List.forall_mem_nil _)

/-! ## Blanks at the ends -/

namespace Text

variable {blanks t : Text}

theorem trim_indented (hblanks : ∀ c ∈ blanks, isBlank c = true)
    (hhead : ∀ c ∈ t.head?, isBlank c = false) (hlast : ∀ c ∈ t.getLast?, isBlank c = false) :
    trim (blanks ++ t) = t := by
  have hstart : trimStart (blanks ++ t) = t := dropWhile_exact hblanks hhead
  rw [trim, hstart, trimEnd_eq_self hlast]

end Text

/-! ## Assignments -/

section
variable {name : Text} {value : List Token}

/-- A name and an equals sign make an assignment. -/
theorem Category.ofLine_assignment (hname : name.head? = some '%') (hvalue : value ≠ [])
    (text : Text) (number : Nat) :
    Category.ofLine ⟨text, number, .statement, word name :: word "=" :: value⟩ = .ok .assign := by
  obtain ⟨rest, rfl⟩ := List.head?_eq_some_iff.1 hname
  obtain ⟨t, ts, rfl⟩ := List.exists_cons_of_ne_nil hvalue
  rw [Category.ofLine_eq_ok]
  simp [Category.all, Category.suits, Category.indent?, Category.fits, Category.leads,
    Category.textAt, beforeComment, isComment, isWord, Token.text]

theorem Statement.splitAssignment_eq_ok (hname : name.head? = some '%') (text : Text)
    (number : Nat) (value : List Token) :
    splitAssignment ⟨text, number, .statement, word name :: word "=" :: value⟩ =
      .ok (name, ⟨render value, number, .continuation, value⟩) := by
  obtain ⟨rest, rfl⟩ := List.head?_eq_some_iff.1 hname
  rfl

end

/-! ## Single lines -/

/-- Lines that make a single logical line have the listing of its statement. -/
theorem Listing.result_of_single {deferred : Bool} {base : Nat} {lines : List Text}
    {line : LogicalLine}
    (h : (Outline.ofLines deferred base lines).result = .ok ⟨[line], []⟩) :
    (Listing.ofLines deferred base lines).result =
      (Statement.ofLogicalLine line).result.map fun node? => ⟨node?.toList, []⟩ := by
  rw [ofLines, result_bind_ok h]
  dsimp only
  rw [nodesOf]
  simp only [result_bind]
  cases (Statement.ofLogicalLine line).result with
  | error e => rfl
  | ok node? => simp [Except.bind, Except.map, nodesOf]

namespace Statement

variable {text : Text} {ts : List Token} {number : Nat}

/-- The line of a text with given tokens. -/
theorem ofText_eq_ok (h : tokenize text = .ok ts) {indent : Indent}
    (hindent : Text.indent text = indent) :
    Line.ofText text number = .ok ⟨text.trim, number, indent, ts⟩ := by
  rw [Line.ofText, tokensOf_eq_ok.2 h, ← hindent]
  rfl

end Statement

end LlvmAsm
