/-
  The lines that hold debug metadata.

  * `definition?` recognises the definition of a metadata id, and `Record.ofLine?`
    the three kinds of definitions that are recorded: the location of an
    instruction, a block of the source program, and a source file;
  * `annotation?` finds the id that annotates an instruction, and
    `unannotated` takes an annotation off a line;
  * `isDeclaration` and `isMetadata` recognise lines that hold nothing else.

  A number may be written in the digits of any script. What is called the rest
  of a line here must not go over a line feed.
-/
import LlvmAsm.Text.Digit
import LlvmAsm.Text.Word

namespace LlvmAsm.Metadata

/-! ## Pieces of a line -/

/-- The rest of a text after a number. -/
def afterNumber? (t : Text) : Option Text := t.leadingDigits?.map Prod.snd

/-- The text between quotes that the text begins with, which is not empty, and
    the rest after it. -/
def quotedText? : Text → Option (Text × Text)
  | '"' :: t =>
    match t.takeWhile (· ≠ '"'), t.dropWhile (· ≠ '"') with
    | c :: name, _ :: rest => some (c :: name, rest)
    | _, _ => none
  | _ => none

/-- The text stays on its line. -/
def isOneLine (t : Text) : Bool := !t.contains '\n'

/-! ## Definitions -/

/-- The id that a line defines, and the text of the definition. -/
def definition? (line : Text) : Option (Text × Text) := do
  let (id, rest) ← Text.leadingDigits? (← line.after? "!")
  return (id, ← Text.after? rest " = metadata ")

/-- A definition that is recorded. -/
inductive Record where
  /-- the line, in digits, and the scope of an instruction -/
  | location (id line scope : Text)
  /-- a block and the scope that encloses it -/
  | block (id parent : Text)
  | file (id name directory : Text)
deriving DecidableEq, Repr

namespace Record

/-- `!N = metadata !{i32 line, i32 column, metadata !scope, ...}` -/
def location? (line : Text) : Option Record := do
  let (id, t) ← definition? line
  let (number, t) ← Text.leadingDigits? (← Text.after? t "!\x7bi32 ")
  let t ← afterNumber? (← Text.after? t ", i32 ")
  let (scope, t) ← Text.leadingDigits? (← Text.after? t ", metadata !")
  let t ← Text.after? t ", "
  if (t.takeWhile (· ≠ '\n')).contains '}' then some (location id number scope) else none

/-- `!N = metadata !{i32 tag, metadata !M, i32 line, i32 column, metadata !parent,
    i32 index} ; [ DW_TAG_lexical_block ]` -/
def block? (line : Text) : Option Record := do
  let (id, t) ← definition? line
  let t ← afterNumber? (← Text.after? t "!\x7bi32 ")
  let t ← afterNumber? (← Text.after? t ", metadata !")
  let t ← afterNumber? (← Text.after? t ", i32 ")
  let t ← afterNumber? (← Text.after? t ", i32 ")
  let (parent, t) ← Text.leadingDigits? (← Text.after? t ", metadata !")
  let t ← afterNumber? (← Text.after? t ", i32 ")
  if t = "\x7d ; [ DW_TAG_lexical_block ]" then some (block id parent) else none

/-- `!N = metadata !{i32 tag, metadata !M, metadata !"name", metadata !"directory",
    metadata !K} ; [ DW_TAG_file_type ]` -/
def file? (line : Text) : Option Record := do
  let (id, t) ← definition? line
  let t ← afterNumber? (← Text.after? t "!\x7bi32 ")
  let t ← afterNumber? (← Text.after? t ", metadata !")
  let (name, t) ← quotedText? (← Text.after? t ", metadata !")
  let (directory, t) ← quotedText? (← Text.after? t ", metadata !")
  let t ← afterNumber? (← Text.after? t ", metadata !")
  if t = "\x7d ; [ DW_TAG_file_type ]" then some (file id name directory) else none

/-- The definition on a line, if it is one that is recorded. -/
def ofLine? (line : Text) : Option Record := location? line <|> block? line <|> file? line

end Record

/-- The line defines an id as a list, or names a list of ids for the debugger. -/
def isMetadata (line : Text) : Bool :=
  ((definition? line).bind fun (_, t) => Text.after? t "!\x7b").any isOneLine ||
    ((line.after? "!llvm.dbg.").bind fun t =>
      if Text.startsWord t then Text.after? (t.dropWhile isWordChar) " = " else none).any isOneLine

/-! ## Annotations -/

/-- The text is a comment that counts the uses of a value, after blanks. -/
def isUsesComment (t : Text) : Bool :=
  ((t.afterSpaces?.bind (Text.after? · "; [#uses=")).bind afterNumber?).any (· = [']'])

/-- The id of an annotation that reaches to the end of the text, but for a
    comment that counts uses. -/
def closingAnnotation? (t : Text) : Option Text := do
  let (id, rest) ← Text.leadingDigits? (← Text.after? t ", !dbg !")
  if rest = [] ∨ isUsesComment rest then some id else none

/-- The id of the closing annotation of a text on one line. -/
def annotationIn? : Text → Option Text
  | [] => none
  | c :: t =>
    match closingAnnotation? (c :: t) with
    | some id => some id
    | none => if c = '\n' then none else annotationIn? t

/-- The id that annotates an indented line. -/
def annotation? : Text → Option Text
  | ' ' :: t => annotationIn? t
  | _ => none

/-- The text without the first annotation in it. -/
def unannotated : Text → Text
  | [] => []
  | c :: t =>
    match (Text.after? (c :: t) ", !dbg !").bind Text.leadingDigits? with
    | some (_, rest) => rest
    | none => c :: unannotated t

/-- The line declares a variable to the debugger. -/
def isDeclaration (line : Text) : Bool :=
  (line.afterSpaces?.bind (Text.after? · "call void @llvm.dbg.declare(metadata ")).any isOneLine

end LlvmAsm.Metadata
