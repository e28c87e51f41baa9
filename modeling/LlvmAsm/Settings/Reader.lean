/-
  Reading settings from a JSON text.

  The settings are an object with any of three members, or a list of their
  values in this order, which may stop early. Other members are skipped,
  whatever they hold. A member must not be given twice, nor be of another kind
  than expected; only the dialect may be `null`. Nothing may follow.
-/
import LlvmAsm.Json.Symbol
import LlvmAsm.Settings

namespace LlvmAsm.Settings

open Json (Symbol)

/-- What the members read so far say. -/
structure Draft where
  dialect : Option (Option Dialect)
  extendedAsDouble : Option Bool
  readBodies : Option Bool

namespace Draft

/-- No member has been read. -/
def blank : Draft := ⟨none, none, none⟩

/-- The settings that the members say; a missing one is as standard. -/
def settings (d : Draft) : Settings where
  dialect := d.dialect.getD standard.dialect
  extendedAsDouble := d.extendedAsDouble.getD standard.extendedAsDouble
  readBodies := d.readBodies.getD standard.readBodies

end Draft

/-- The names of the members. -/
def dialectKey : Text := "dialect"
@[inherit_doc dialectKey] def extendedKey : Text := "fake_x86_fp80"
@[inherit_doc dialectKey] def bodiesKey : Text := "parse_function_bodies"

/-- A dialect at the beginning of the symbols, and the rest. It is given by its
    name, alone or as the key of a member that says nothing. -/
def dialect? : List Symbol → Option (Option Dialect × List Symbol)
  | .null :: rest => some (none, rest)
  | .text (some name) :: rest => (Dialect.ofName? name).map fun d => (some d, rest)
  | .punctuation '{' :: .text (some name) :: .punctuation ':' :: .null :: .punctuation '}' :: rest =>
    (Dialect.ofName? name).map fun d => (some d, rest)
  | _ => none

/-- A truth value at the beginning of the symbols, and the rest. -/
def bool? : List Symbol → Option (Bool × List Symbol)
  | .bool b :: rest => some (b, rest)
  | _ => none

/-- The draft with the value of one more member, and what follows the value. -/
def member? (d : Draft) (key : Text) (symbols : List Symbol) : Option (Draft × List Symbol) :=
  if key = dialectKey then
    if d.dialect.isSome then none
    else (dialect? symbols).map fun (v, rest) => ({ d with dialect := some v }, rest)
  else if key = extendedKey then
    if d.extendedAsDouble.isSome then none
    else (bool? symbols).map fun (v, rest) => ({ d with extendedAsDouble := some v }, rest)
  else if key = bodiesKey then
    if d.readBodies.isSome then none
    else (bool? symbols).map fun (v, rest) => ({ d with readBodies := some v }, rest)
  else (Symbol.skip symbols).map fun rest => (d, rest)

/-- The draft after the members that begin with a key, of which at most `bound`
    are read, and what follows the end of the object. -/
def members? : (bound : Nat) → Draft → List Symbol → Option (Draft × List Symbol)
  | bound + 1, d, .text (some key) :: .punctuation ':' :: symbols =>
    match member? d key symbols with
    | some (d, .punctuation '}' :: rest) => some (d, rest)
    | some (d, .punctuation ',' :: rest) => members? bound d rest
    | _ => none
  | _, _, _ => none

/-- The draft after the values of the remaining keys in a list, and what follows
    the end of the list. -/
def values? (d : Draft) : (keys : List Text) → List Symbol → Option (Draft × List Symbol)
  | key :: keys, symbols =>
    match member? d key symbols with
    | some (d, .punctuation ']' :: rest) => some (d, rest)
    | some (d, .punctuation ',' :: rest) => values? d keys rest
    | _ => none
  | [], _ => none

/-- The settings that a JSON text says, if it is in order. -/
def ofText? (t : Text) : Option Settings := do
  let (draft, rest) ←
    match ← Symbol.ofText? t with
    | .punctuation '{' :: .punctuation '}' :: rest => some (Draft.blank, rest)
    | .punctuation '{' :: rest => members? rest.length .blank rest
    | .punctuation '[' :: .punctuation ']' :: rest => some (Draft.blank, rest)
    | .punctuation '[' :: rest => values? .blank [dialectKey, extendedKey, bodiesKey] rest
    | _ => none
  if rest = [] then some draft.settings else none

end LlvmAsm.Settings
