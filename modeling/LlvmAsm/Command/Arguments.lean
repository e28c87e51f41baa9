/-
  The arguments of the command line.

  * A `Parameter` takes a value and a `Switch` takes none; `Arguments` holds the
    values and the switches that were given;
  * `Arguments.ofWords` reads the words of a command line from left to right.
    A long name may be followed by `=` and the value, a letter by the value
    itself or by `=` and the value; otherwise the value is the next word. After
    the word `--` all words are inputs;
  * `Refusal` is the reason why words are no arguments. Nothing may be given
    twice.
-/
import LlvmAsm.Table
import LlvmAsm.Text

namespace LlvmAsm.Command

/-! ## What can be given -/

/-- Whatever takes a value. The input is the word without a name. -/
inductive Parameter where
  /-- the source file -/
  | input
  /-- the file to write -/
  | output
  /-- the file with the settings -/
  | config
  | dialect
deriving DecidableEq, Repr

/-- Whatever takes no value. -/
inductive Switch where
  /-- read the type `x86_fp80` as `double` -/
  | extendedAsDouble
  /-- read the bodies of functions at once -/
  | eager
  /-- add the nodes of the functions that were set aside -/
  | expand
  /-- tell about the run -/
  | verbose
  /-- explain the command line and do nothing else -/
  | help
deriving DecidableEq, Repr

/-- Something that can be given by name. -/
inductive Choice where
  | parameter (p : Parameter)
  | switch (s : Switch)
deriving DecidableEq, Repr

namespace Choice

/-- The choice with a given long name. -/
def ofName? (name : Text) : Option Choice :=
  if name = "output" then some (parameter .output)
  else if name = "config" then some (parameter .config)
  else if name = "dialect" then some (parameter .dialect)
  else if name = "fake-x86-fp80" then some (switch .extendedAsDouble)
  else if name = "eager" then some (switch .eager)
  else if name = "expand" then some (switch .expand)
  else if name = "verbose" then some (switch .verbose)
  else if name = "help" then some (switch .help)
  else none

/-- The choice with a given letter. -/
def ofLetter? (c : Char) : Option Choice :=
  if c = 'o' then some (parameter .output)
  else if c = 'v' then some (switch .verbose)
  else if c = 'h' then some (switch .help)
  else none

end Choice

/-- The values and switches that were given. -/
structure Arguments where
  values : Table Parameter Text
  switches : List Switch
deriving DecidableEq, Repr

/-- Why words are no arguments. -/
inductive Refusal where
  /-- help was asked for -/
  | help
  | unknown (word : Text)
  | repeated (word : Text)
  | missingValue (word : Text)
  | needlessValue (word : Text)
deriving DecidableEq, Repr

/-- What is said about a refusal. -/
def Refusal.message : Refusal → Text
  | help => []
  | unknown word => "unknown option: " ++ word
  | repeated word => "given more than once: " ++ word
  | missingValue word => "value missing: " ++ word
  | needlessValue word => "takes no value: " ++ word

namespace Arguments

/-- Nothing was given. -/
def empty : Arguments := ⟨.empty, []⟩

/-- The value that was given for a parameter. -/
def value? (a : Arguments) (p : Parameter) : Option Text := a.values.get? p

/-- The switch was given. -/
def has (a : Arguments) (s : Switch) : Bool := a.switches.contains s

/-- The arguments with a value for a parameter, which the word gives. The name
    of a file is not empty. -/
def give (a : Arguments) (p : Parameter) (value word : Text) : Except Refusal Arguments :=
  if (a.value? p).isSome then .error (.repeated word)
  else if value = [] ∧ p ≠ .dialect then .error (.missingValue word)
  else .ok { a with values := a.values.put p value }

/-- The arguments with a switch, which the word gives. -/
def turnOn (a : Arguments) (s : Switch) (word : Text) : Except Refusal Arguments :=
  if s = .help then .error .help
  else if a.has s then .error (.repeated word)
  else .ok { a with switches := s :: a.switches }

end Arguments

/-! ## The words of a command line -/

/-- The state between two words. -/
structure Progress where
  arguments : Arguments
  /-- the parameter whose value comes next, and the word that named it -/
  awaiting : Option (Parameter × Text)
  /-- all words that come are inputs -/
  inputsOnly : Bool
deriving DecidableEq, Repr

namespace Progress

/-- The state before the first word. -/
def start : Progress := ⟨.empty, none, false⟩

/-- The word names options: it begins with a hyphen and goes on. -/
def namesOptions : Text → Bool
  | '-' :: _ :: _ => true
  | _ => false

/-- The value for a parameter. -/
def give (p : Progress) (parameter : Parameter) (value word : Text) : Except Refusal Progress := do
  let arguments ← p.arguments.give parameter value word
  return { p with arguments := arguments, awaiting := none }

/-- A switch. -/
def turnOn (p : Progress) (s : Switch) (word : Text) : Except Refusal Progress := do
  let arguments ← p.arguments.turnOn s word
  return { p with arguments := arguments }

/-- A long name, and its value if there is one in the same word. -/
def long (p : Progress) (name : Text) (value : Option Text) (word : Text) :
    Except Refusal Progress :=
  match Choice.ofName? name, value with
  | some (.parameter parameter), some value => p.give parameter value word
  | some (.parameter parameter), none => .ok { p with awaiting := some (parameter, word) }
  | some (.switch _), some _ => .error (.needlessValue word)
  | some (.switch s), none => p.turnOn s word
  | none, _ => .error (.unknown word)

/-- Letters in one word. What follows the letter of a parameter is its value. -/
def letters (p : Progress) (word : Text) : Text → Except Refusal Progress
  | [] => .ok p
  | c :: rest =>
    match Choice.ofLetter? c, rest with
    | some (.switch s), rest => do (← p.turnOn s word).letters word rest
    | some (.parameter parameter), [] => .ok { p with awaiting := some (parameter, word) }
    | some (.parameter parameter), '=' :: value => p.give parameter value word
    | some (.parameter parameter), value => p.give parameter value word
    | none, _ => .error (.unknown word)

/-- The effect of a word that is no value of an option. -/
def argument (p : Progress) (word : Text) : Except Refusal Progress :=
  if p.inputsOnly || !namesOptions word then p.give .input word word
  else if word = "--" then .ok { p with inputsOnly := true }
  else match Text.after? word "--" with
    | some long =>
      let value := match long.dropWhile (· ≠ '=') with
        | _ :: value => some value
        | [] => none
      p.long (long.takeWhile (· ≠ '=')) value word
    | none => p.letters word (word.drop 1)

/-- The effect of a word. -/
def step (p : Progress) (word : Text) : Except Refusal Progress :=
  match p.awaiting with
  | some (parameter, name) =>
    if namesOptions word then .error (.missingValue name) else p.give parameter word name
  | none => p.argument word

end Progress

/-- The arguments that the words of a command line give. -/
def Arguments.ofWords (words : List Text) : Except Refusal Arguments := do
  let p ← words.foldlM Progress.step .start
  match p.awaiting with
  | some (_, name) => .error (.missingValue name)
  | none => .ok p.arguments

end LlvmAsm.Command
