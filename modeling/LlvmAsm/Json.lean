/-
  JSON values and their texts.

  * `Json` has the values that the library writes: numbers are natural, and
    an object is a list of members in the order in which they are written;
  * `Json.compact` writes a value without blanks, `Json.pretty` with one item
    or member per line, indented by two spaces per level. Both write a value
    in front of the text that follows it, so that a text is built only once;
  * `Json.quoted` is the written form of a text: only the quote, the backslash
    and the characters below U+0020 are escaped.
-/
import LlvmAsm.Text

namespace LlvmAsm

/-- A JSON value. -/
inductive Json where
  | null
  | bool (b : Bool)
  | nat (n : Nat)
  | text (t : Text)
  | list (items : List Json)
  | object (members : List (Text × Json))

namespace Json

/-! ## Texts in quotes -/

/-- The written form of a character between quotes. -/
def escaped (c : Char) : Text :=
  if c = '"' then ['\\', '"']
  else if c = '\\' then ['\\', '\\']
  else if c = '\x08' then ['\\', 'b']
  else if c = '\x0c' then ['\\', 'f']
  else if c = '\n' then ['\\', 'n']
  else if c = '\r' then ['\\', 'r']
  else if c = '\t' then ['\\', 't']
  else if c.toNat < 0x20 then
    "\\u00" ++ [Nat.digitChar (c.toNat / 16), Nat.digitChar (c.toNat % 16)]
  else [c]

/-- The written form of a text. -/
def quoted (t : Text) : Text := '"' :: t.flatMap escaped ++ ['"']

/-! ## Without blanks -/

mutual

/-- The text of a value without blanks, and then `rest`. -/
def compactOnto : Json → (rest : Text) → Text
  | null, rest => "null" ++ rest
  | bool b, rest => (if b then "true" else "false") ++ rest
  | nat n, rest => Text.ofNat n ++ rest
  | text t, rest => quoted t ++ rest
  | list items, rest => '[' :: compactItems none items (']' :: rest)
  | object members, rest => '{' :: compactMembers none members ('}' :: rest)

/-- The texts of items with a comma between them, and before the first one if
    they follow another, and then `rest`. -/
def compactItems (comma : Option Char) : List Json → (rest : Text) → Text
  | [], rest => rest
  | item :: items, rest =>
    comma.toList ++ compactOnto item (compactItems (some ',') items rest)

@[inherit_doc compactItems]
def compactMembers (comma : Option Char) : List (Text × Json) → (rest : Text) → Text
  | [], rest => rest
  | (key, value) :: members, rest =>
    comma.toList ++ (quoted key ++ ':' :: compactOnto value (compactMembers (some ',') members rest))

end

/-- The text of a value without blanks. -/
def compact (j : Json) : Text := compactOnto j []

mutual

/-- What comes after a value has no effect on its text. -/
theorem compactOnto_eq (j : Json) (rest : Text) : compactOnto j rest = compactOnto j [] ++ rest := by
  cases j with
  | null => simp [compactOnto]
  | bool b => simp [compactOnto]
  | nat n => simp [compactOnto]
  | text t => simp [compactOnto]
  | list items =>
    simp only [compactOnto]
    rw [compactItems_eq none items (']' :: rest), compactItems_eq none items [']']]
    simp
  | object members =>
    simp only [compactOnto]
    rw [compactMembers_eq none members ('}' :: rest), compactMembers_eq none members ['}']]
    simp

theorem compactItems_eq (comma : Option Char) (items : List Json) (rest : Text) :
    compactItems comma items rest = compactItems comma items [] ++ rest := by
  cases items with
  | nil => simp [compactItems]
  | cons item items =>
    simp only [compactItems]
    rw [compactOnto_eq item (compactItems (some ',') items rest),
      compactOnto_eq item (compactItems (some ',') items []), compactItems_eq (some ',') items rest]
    simp

theorem compactMembers_eq (comma : Option Char) (members : List (Text × Json)) (rest : Text) :
    compactMembers comma members rest = compactMembers comma members [] ++ rest := by
  cases members with
  | nil => simp [compactMembers]
  | cons member members =>
    obtain ⟨key, value⟩ := member
    simp only [compactMembers]
    rw [compactOnto_eq value (compactMembers (some ',') members rest),
      compactOnto_eq value (compactMembers (some ',') members []),
      compactMembers_eq (some ',') members rest]
    simp

end

/-! ## One item per line -/

/-- The beginning of a line inside `level` levels of lists and objects. -/
def lineStart (level : Nat) : Text := '\n' :: List.replicate (2 * level) ' '

mutual

/-- The text of a value inside `level` levels of lists and objects, and then
    `rest`. -/
def prettyOnto (level : Nat) : Json → (rest : Text) → Text
  | null, rest => "null" ++ rest
  | bool b, rest => (if b then "true" else "false") ++ rest
  | nat n, rest => Text.ofNat n ++ rest
  | text t, rest => quoted t ++ rest
  | list items, rest =>
    if items.isEmpty then "[]" ++ rest
    else '[' :: prettyItems (level + 1) none items (lineStart level ++ ']' :: rest)
  | object members, rest =>
    if members.isEmpty then "\x7b\x7d" ++ rest
    else '{' :: prettyMembers (level + 1) none members (lineStart level ++ '}' :: rest)

/-- The texts of items on lines of their own, with a comma between them, and
    before the first one if they follow another, and then `rest`. -/
def prettyItems (level : Nat) (comma : Option Char) : List Json → (rest : Text) → Text
  | [], rest => rest
  | item :: items, rest =>
    comma.toList ++ (lineStart level ++ prettyOnto level item (prettyItems level (some ',') items rest))

@[inherit_doc prettyItems]
def prettyMembers (level : Nat) (comma : Option Char) : List (Text × Json) → (rest : Text) → Text
  | [], rest => rest
  | (key, value) :: members, rest =>
    comma.toList ++ (lineStart level ++ (quoted key ++ ':' :: ' ' ::
      prettyOnto level value (prettyMembers level (some ',') members rest)))

end

/-- The text of a value with one item or member per line. -/
def pretty (j : Json) : Text := prettyOnto 0 j []

/-! ## Building values -/

/-- A value or `null`. -/
def orNull {α : Type} (f : α → Json) : Option α → Json
  | none => null
  | some a => f a

/-- A list of values. -/
def listOf {α : Type} (f : α → Json) (items : List α) : Json := list (items.map f)

end Json

end LlvmAsm
