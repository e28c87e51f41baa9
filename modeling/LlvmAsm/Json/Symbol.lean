/-
  The symbols of a JSON text, and the way past a value.

  * `Symbol.ofText?` cuts a JSON text into its symbols;
  * `Symbol.skip` finds the end of the value that a list of symbols begins
    with, whatever it holds and however deep it is nested.

  A text in quotes may hold halves of surrogate pairs. It is a symbol all the
  same, but has no content as a text.
-/
import LlvmAsm.Text.Digit

namespace LlvmAsm.Json

/-- A symbol of a JSON text. -/
inductive Symbol where
  | punctuation (c : Char)
  /-- a text in quotes, and what it says if it says something -/
  | text (content : Option Text)
  | number
  | bool (b : Bool)
  | null
deriving DecidableEq, Repr

namespace Symbol

/-! ## Texts in quotes -/

/-- A piece of a text in quotes: a character, or a unit of 16 bits that is
    given by its digits. -/
inductive Piece where
  | char (c : Char)
  | unit (n : Nat)

/-- The character that is written by a backslash and a letter. -/
def escape? (c : Char) : Option Char :=
  if c = '"' ∨ c = '\\' ∨ c = '/' then some c
  else if c = 'b' then some '\x08'
  else if c = 'f' then some '\x0c'
  else if c = 'n' then some '\n'
  else if c = 'r' then some '\r'
  else if c = 't' then some '\t'
  else none

/-- The pieces of a text up to its closing quote, and what follows the quote. -/
def pieces? : Text → Option (List Piece × Text)
  | [] => none
  | '"' :: t => some ([], t)
  | '\\' :: 'u' :: a :: b :: c :: d :: t => do
    let unit ← [a, b, c, d].foldlM (fun n x => (hexDigit? x).map (16 * n + ·)) 0
    let (pieces, rest) ← pieces? t
    return (.unit unit :: pieces, rest)
  | '\\' :: c :: t => do
    let c ← escape? c
    let (pieces, rest) ← pieces? t
    return (.char c :: pieces, rest)
  | c :: t => do
    if c.toNat < 0x20 ∨ c = '\\' then none
    else
      let (pieces, rest) ← pieces? t
      return (.char c :: pieces, rest)

/-- What pieces say: the halves of a surrogate pair must follow each other. -/
def content? : List Piece → Option Text
  | [] => some []
  | .char c :: ps => (content? ps).map (c :: ·)
  | .unit high :: .unit low :: ps =>
    if 0xD800 ≤ high ∧ high ≤ 0xDBFF then
      if 0xDC00 ≤ low ∧ low ≤ 0xDFFF then
        (content? ps).map (Char.ofNat (0x10000 + (high - 0xD800) * 0x400 + (low - 0xDC00)) :: ·)
      else none
    else if 0xDC00 ≤ high ∧ high ≤ 0xDFFF then none
    else (content? (.unit low :: ps)).map (Char.ofNat high :: ·)
  | .unit n :: ps =>
    if 0xD800 ≤ n ∧ n ≤ 0xDFFF then none else (content? ps).map (Char.ofNat n :: ·)

/-! ## Numbers -/

/-- What follows a nonempty run of digits. -/
def afterDigits? : Text → Option Text
  | c :: t => if c.isDigit then some (t.dropWhile Char.isDigit) else none
  | [] => none

/-- What follows the exponent, if there is one. -/
def afterExponent? : Text → Option Text
  | c :: t =>
    if c = 'e' ∨ c = 'E' then
      match t with
      | s :: t' => if s = '+' ∨ s = '-' then afterDigits? t' else afterDigits? t
      | [] => none
    else some (c :: t)
  | [] => some []

/-- What follows the fraction and the exponent of a number. -/
def afterFraction? : Text → Option Text
  | '.' :: t => (afterDigits? t).bind afterExponent?
  | t => afterExponent? t

/-- What follows a number, sign included. Digits do not follow a leading zero. -/
def afterNumber? (t : Text) : Option Text :=
  match (t.after? "-").getD t with
  | '0' :: t => afterFraction? t
  | t => (afterDigits? t).bind afterFraction?

/-! ## The symbols of a text -/

/-- The symbol that a text begins with, and the rest. -/
def first? (c : Char) (t : Text) : Option (Symbol × Text) :=
  if ['{', '}', '[', ']', ':', ','].contains c then some (.punctuation c, t)
  else if c = '"' then (pieces? t).map fun (pieces, rest) => (.text (content? pieces), rest)
  else if c = 't' then (Text.after? t "rue").map (.bool true, ·)
  else if c = 'f' then (Text.after? t "alse").map (.bool false, ·)
  else if c = 'n' then (Text.after? t "ull").map (.null, ·)
  else (afterNumber? (c :: t)).map (.number, ·)

/-- The characters that may stand between symbols. -/
def isSpace (c : Char) : Bool := c = ' ' || c = '\t' || c = '\n' || c = '\r'

/-- The symbols of a text, of which at most `bound` are looked for. -/
def ofTextWithin? : (bound : Nat) → Text → Option (List Symbol)
  | bound, t =>
    match t.dropWhile isSpace, bound with
    | [], _ => some []
    | _ :: _, 0 => none
    | c :: t, bound + 1 => do
      let (symbol, rest) ← first? c t
      let symbols ← ofTextWithin? bound rest
      return symbol :: symbols

/-- The symbols of a text. Each takes up a character at least. -/
def ofText? (t : Text) : Option (List Symbol) := ofTextWithin? t.length t

/-! ## The way past a value -/

/-- What may come next on the way past a value. -/
inductive Next where
  | value
  /-- the first item of a list, or its end -/
  | itemOrEnd
  /-- the first key of an object, or its end -/
  | keyOrEnd
  | key
  | colon
  /-- a comma, or the end of the list or object -/
  | commaOrEnd
deriving DecidableEq, Repr

/-- What comes after a value inside the given lists and objects, the innermost
    one first, named by the characters that close them. -/
structure Place where
  closers : List Char
  next : Next
deriving DecidableEq, Repr

/-- The place after the beginning of a value. -/
def Place.enter (closers : List Char) : Symbol → Option Place
  | .punctuation '[' => some ⟨']' :: closers, .itemOrEnd⟩
  | .punctuation '{' => some ⟨'}' :: closers, .keyOrEnd⟩
  | .punctuation _ => none
  | _ => some ⟨closers, .commaOrEnd⟩

/-- The place after the end of the innermost list or object. -/
def Place.leave (closers : List Char) (s : Symbol) : Option Place :=
  match closers with
  | c :: closers => if s = .punctuation c then some ⟨closers, .commaOrEnd⟩ else none
  | [] => none

/-- The place after one more symbol. -/
def Place.step (p : Place) (s : Symbol) : Option Place :=
  match p.next, s with
  | .value, s => Place.enter p.closers s
  | .itemOrEnd, s => (Place.leave p.closers s).or (Place.enter p.closers s)
  | .keyOrEnd, .text _ => some ⟨p.closers, .colon⟩
  | .keyOrEnd, s => Place.leave p.closers s
  | .key, .text _ => some ⟨p.closers, .colon⟩
  | .key, _ => none
  | .colon, .punctuation ':' => some ⟨p.closers, .value⟩
  | .colon, _ => none
  | .commaOrEnd, .punctuation ',' =>
    some ⟨p.closers, if p.closers.head? = some '}' then .key else .value⟩
  | .commaOrEnd, s => Place.leave p.closers s

/-- What follows the value on whose way one stands. -/
def skipFrom (p : Place) : List Symbol → Option (List Symbol)
  | [] => none
  | s :: rest =>
    (p.step s).bind fun p =>
      if p.closers = [] ∧ p.next = .commaOrEnd then some rest else skipFrom p rest

/-- What follows the value that the symbols begin with. -/
def skip (symbols : List Symbol) : Option (List Symbol) := skipFrom ⟨[], .value⟩ symbols

end Symbol

end LlvmAsm.Json
