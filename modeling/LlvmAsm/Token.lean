/-
  Tokens: the words of a line and the groups that its enclosers form.

  * `Token` is a word, or a group with its own text and the tokens inside;
  * `render` joins the texts of tokens again, and `splitCommas` cuts a token
    list at its separators;
  * `Token.weight` counts the tokens inside a token, itself included: it
    bounds every recursion into groups.
-/
import LlvmAsm.Text

namespace LlvmAsm

/-! ## Enclosers -/

/-- The pairs of characters that enclose a group. -/
inductive Encloser where
  | bracket | paren | angle | brace
deriving DecidableEq, Repr

namespace Encloser

/-- The encloser opened by a character. A brace opens no group by itself: the
    body of a function is open over many lines. -/
def ofOpener? (c : Char) : Option Encloser :=
  if c = '[' then some bracket
  else if c = '(' then some paren
  else if c = '<' then some angle
  else none

/-- The encloser closed by a character. -/
def ofCloser? (c : Char) : Option Encloser :=
  if c = ']' then some bracket
  else if c = ')' then some paren
  else if c = '>' then some angle
  else none

end Encloser

/-! ## Tokens -/

/-- A token of a line. The text of a group runs from its opener to its closer
    and may go on with what was joined to it later. -/
inductive Token where
  | word (text : Text)
  | group (text : Text) (encloser : Encloser) (inner : List Token)
deriving Repr

namespace Token

/-- The text of a token. -/
def text : Token → Text
  | word t | group t _ _ => t

/-- The token is a group. -/
def isGroup : Token → Bool
  | word _ => false
  | group .. => true

/-- The encloser of a group. -/
def encloser? : Token → Option Encloser
  | word _ => none
  | group _ e _ => some e

/-- The tokens inside a group. -/
def inner? : Token → Option (List Token)
  | word _ => none
  | group _ _ inner => some inner

/-- The tokens inside a group with the given encloser. -/
def innerOf? (e : Encloser) : Token → Option (List Token)
  | word _ => none
  | group _ e' inner => if e' = e then some inner else none

/-- The token, word or group, has the given text. -/
def is (t : Token) (w : Text) : Bool := t.text = w

/-- The token is the given word. -/
def isWord (w : Text) : Token → Bool
  | word t => t = w
  | group .. => false

/-- The token is one of the given words. -/
def isOneOf (ws : List Text) : Token → Bool
  | word t => ws.contains t
  | group .. => false

/-- The token is a comma between groups and words. -/
def isSeparator (t : Token) : Bool := t.isWord ","

/-- The word that starts a comment. -/
def isComment (t : Token) : Bool := t.isWord ";"

/-- The token with more text at its end. -/
def append (t : Token) (more : Text) : Token :=
  match t with
  | word text => word (text ++ more)
  | group text e inner => group (text ++ more) e inner

@[simp] theorem text_append (t : Token) (more : Text) : (t.append more).text = t.text ++ more := by
  cases t <;> rfl

/-- A comma. -/
def separator : Token := word ","

mutual

/-- The number of tokens in a token, itself included. -/
def weight : Token → Nat
  | word _ => 1
  | group _ _ inner => 1 + weights inner

/-- The number of tokens in a list, at every depth. -/
def weights : List Token → Nat
  | [] => 0
  | t :: ts => weight t + weights ts

end

mutual

/-- Equality of tokens is decidable. -/
def decEq (a b : Token) : Decidable (a = b) :=
  match a, b with
  | word t, word t' => decidable_of_iff (t = t') (by simp)
  | group t e inner, group t' e' inner' =>
    have := decEqList inner inner'
    decidable_of_iff (t = t' ∧ e = e' ∧ inner = inner') (by simp)
  | word _, group .. | group .., word _ => isFalse (by simp)

/-- Equality of token lists is decidable. -/
def decEqList (as bs : List Token) : Decidable (as = bs) :=
  match as, bs with
  | [], [] => isTrue rfl
  | [], _ :: _ | _ :: _, [] => isFalse (by simp)
  | a :: as, b :: bs =>
    have := decEq a b
    have := decEqList as bs
    decidable_of_iff (a = b ∧ as = bs) (by simp)

end

instance : DecidableEq Token := decEq

end Token

/-! ## Token lists -/

/-- A token as it follows other tokens: after a blank, or at once if it is a
    comma. -/
def Token.spaced (t : Token) : Text := if t.isSeparator then t.text else ' ' :: t.text

/-- The texts of tokens, joined as in a source text: `a b, c`. -/
def render : List Token → Text
  | [] => []
  | t :: ts => t.text ++ ts.flatMap Token.spaced

/-- The token lists between the commas. There is none in an empty list. -/
def splitCommas : List Token → List (List Token)
  | [] => []
  | ts => splitWhere Token.isSeparator ts

/-- The place of the first token that is the given word. -/
def findWord? (w : Text) (ts : List Token) : Option Nat := ts.findIdx? (Token.isWord w)

/-- The tokens before the comment. -/
def beforeComment (ts : List Token) : List Token := ts.takeWhile (!·.isComment)

end LlvmAsm
