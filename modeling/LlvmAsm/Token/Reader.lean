/-
  From a text to its tokens.

  * `tokenize` cuts a text into lexemes, reads the inside of every group in
    the same way and arranges the tokens;
  * if the enclosers or quotes of the text do not fit together, whatever
    follows its first semicolon is a comment, and only the text before it has
    to be in order: `cutComment?`;
  * `Imbalance` is the reason why a text has no tokens.
-/
import LlvmAsm.Text.Blank
import LlvmAsm.Token.Arrangement
import LlvmAsm.Token.Lexeme

namespace LlvmAsm

/-! ## Comments -/

/-- The state after a character of the search for a comment: whether a quote is
    open, and the number of open enclosers. A closer too many is ignored. -/
def commentState (quoted : Bool) (depth : Nat) (c : Char) : Bool × Nat :=
  if c = '"' then (!quoted, depth)
  else if quoted then (quoted, depth)
  else if (Encloser.ofOpener? c).isSome then (quoted, depth + 1)
  else if (Encloser.ofCloser? c).isSome then (quoted, depth - 1)
  else (quoted, depth)

/-- The parts of a text before and after its first semicolon outside quotes and
    enclosers, from a state of the search on. -/
def cutCommentFrom? (quoted : Bool) (depth : Nat) : Text → Option (Text × Text)
  | [] => none
  | c :: t =>
    if c = ';' ∧ quoted = false ∧ depth = 0 then some ([], t)
    else
      let (quoted, depth) := commentState quoted depth c
      (cutCommentFrom? quoted depth t).map fun (before, after) => (c :: before, after)

/-- The parts of a text before and after the semicolon of its comment. -/
def cutComment? (t : Text) : Option (Text × Text) := cutCommentFrom? false 0 t

theorem append_of_cutCommentFrom? {quoted : Bool} {depth : Nat} {t before after : Text}
    (h : cutCommentFrom? quoted depth t = some (before, after)) : t = before ++ ';' :: after := by
  induction t generalizing quoted depth before after with
  | nil => simp [cutCommentFrom?] at h
  | cons c t ih =>
    simp only [cutCommentFrom?] at h
    split at h
    · rename_i hc
      simp_all
    · obtain ⟨⟨before', after'⟩, h', heq⟩ := Option.map_eq_some_iff.1 h
      simp only [Prod.mk.injEq] at heq
      rw [ih h', ← heq.1, ← heq.2, List.cons_append]

theorem append_of_cutComment? {t before after : Text}
    (h : cutComment? t = some (before, after)) : t = before ++ ';' :: after :=
  append_of_cutCommentFrom? h

/-- The tokens of a comment: a semicolon and the words behind it. -/
def commentTokens (after : Text) : List Token :=
  .word ";" :: (Text.words after).map .word

/-! ## Tokens -/

/-- The enclosers or quotes of a text do not fit together. -/
structure Imbalance where
  fault : Fault
  /-- the text, without the blanks at its ends -/
  text : Text
deriving DecidableEq, Repr

mutual

/-- The tokens of a text, with a comment if the whole text is not in order. -/
def tokenize (text : Text) : Except Imbalance (List Token) :=
  match tokenizeAll text with
  | .ok ts => .ok ts
  | .error e =>
    match _h : cutComment? text with
    | none => .error e
    | some (before, after) => do
      let ts ← tokenizeAll before
      return ts ++ commentTokens after
termination_by 3 * text.length + 2
decreasing_by
  · omega
  · have := congrArg List.length (append_of_cutComment? _h)
    simp only [List.length_append, List.length_cons] at this
    omega

/-- The tokens of a text that is in order from its beginning to its end. A
    group with a fault inside is found when the group ends, before any fault
    after it. -/
def tokenizeAll (text : Text) : Except Imbalance (List Token) := do
  let ts ← readLexemes (cut text).1
  match (cut text).2 with
  | some fault => .error ⟨fault, text.trim⟩
  | none => .ok (Token.arrange ts)
termination_by 3 * text.length + 1
decreasing_by
  have := sizes_cut_le text
  omega

/-- Each lexeme as a token of its own, with the tokens inside a group. -/
def readLexemes (lexemes : List Lexeme) : Except Imbalance (List Token) :=
  match lexemes with
  | [] => .ok []
  | .comma :: rest => do
    let ts ← readLexemes rest
    return .separator :: ts
  | .run c t :: rest =>
    match Encloser.ofOpener? c with
    | none => do
      let ts ← readLexemes rest
      return .word (c :: t) :: ts
    | some e => do
      let inner ← tokenize t.dropLast
      let ts ← readLexemes rest
      return .group (c :: t) e inner :: ts
termination_by 3 * Lexeme.sizes lexemes
decreasing_by all_goals simp [Lexeme.size] <;> omega

end

end LlvmAsm
