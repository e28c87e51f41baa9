/-
  The arrangement of tokens: how a token joins the tokens before it.

  Tokens are kept with the latest one first. A new token may

  * go on with the token before it: the quoted part of a name after `%` or `@`,
    or stars after anything (`extends`);
  * complete a function type: a list of bare types after a type (`isSignature`);
  * close a brace: the tokens since the last open brace become one group
    (`closeBrace?`);

  and stands by itself otherwise. `Token.place` decides which.
-/
import LlvmAsm.Token
import LlvmAsm.TypeText

namespace LlvmAsm.Token

/-- A text that belongs to the token before it: the quotes of a name after a
    lone sigil, or nothing but stars. -/
def extends? (text : Text) (last : Token) : Bool :=
  !last.isSeparator &&
    ((last.is "%" || last.is "@") && text.head? = some '"' || text.all (· = '*'))

/-- A list of bare types in parentheses, as in the type of a function. -/
def isSignature (t : Token) : Bool :=
  let bare := TypeText.bare t.text
  bare.head? = some '(' && bare.endsWith ")" &&
    (bare = "()" || bare = "(...)" ||
      match t.inner? with
      | none => false
      | some inner =>
        (splitCommas inner).all fun part =>
          match part with
          | [arg] => TypeText.isType arg.text || arg.is "..."
          | _ => false)

/-- The group of a brace that is closed, with the stars after it. -/
def braceGroup (inner : List Token) (stars : Text) : Token :=
  let body := if inner.isEmpty then [' '] else ' ' :: render inner ++ [' ']
  group ('{' :: body ++ '}' :: stars) .brace inner

/-- The tokens after a word that ends in a closing brace, stars aside: those
    since the last open brace become a group, together with what the word
    holds before its brace. Nothing happens if no brace is open. -/
def closeBrace? (word : Text) (before : List Token) : Option (List Token) :=
  match (TypeText.bare word).reverse with
  | '}' :: head =>
    match before.dropWhile (!·.isWord ['{']) with
    | [] => none
    | _ :: rest =>
      let last := if head.isEmpty then [] else [Token.word head.reverse]
      let inner := (before.takeWhile (!·.isWord ['{'])).reverse ++ last
      some (braceGroup inner (TypeText.stars word) :: rest)
  | _ => none

/-- A token that does not go on with the one before it: it completes a function
    type, closes a brace or stands by itself. -/
def placeApart (before : List Token) (t : Token) : List Token :=
  let alone :=
    match t with
    | word w => (closeBrace? w before).getD (t :: before)
    | group .. => t :: before
  match before with
  | [] => alone
  | last :: rest =>
    if !last.isSeparator && TypeText.isType last.text && t.isSignature then
      last.append (' ' :: t.text) :: rest
    else alone

/-- The tokens after one more token, the latest first. -/
def place (before : List Token) (t : Token) : List Token :=
  match before with
  | [] => placeApart [] t
  | last :: rest =>
    if extends? t.text last then last.append t.text :: rest else placeApart (last :: rest) t

/-- A list of tokens, arranged from left to right. -/
def arrange (ts : List Token) : List Token := (ts.foldl place []).reverse

end LlvmAsm.Token
