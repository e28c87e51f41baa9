/-
  The command line program: reads a source and writes the JSON text of its
  module.

  * `Command.run` is the whole run for the words of a command line, in any
    `Host`;
  * `Outcome` is what the run leaves behind besides written files;
  * `Complaint` is the reason why a run fails. The settings are looked at
    first, then the source, and the output last.
-/
import LlvmAsm.Command.Arguments
import LlvmAsm.Command.Host
import LlvmAsm.Line.Message
import LlvmAsm.Module.Json
import LlvmAsm.Settings.Reader

namespace LlvmAsm.Command

/-- What a run leaves behind. -/
structure Outcome where
  exitCode : Nat
  /-- the text on the standard output -/
  output : Text
  /-- the lines on the standard error -/
  diagnostics : List Text
deriving DecidableEq, Repr

/-! ## Complaints -/

/-- Why a run fails. -/
inductive Complaint where
  /-- the file with the settings cannot be read -/
  | settingsFile (e : FileError)
  /-- the file with the settings does not say any -/
  | settingsText
  | unknownDialect (name : Text)
  | inputFile (path : Text) (e : FileError)
  | standardInput (e : FileError)
  /-- a line of the source has no meaning -/
  | source (f : Failure)
  | outputFile (path : Text) (e : FileError)
deriving DecidableEq, Repr

/-- The words of a complaint. -/
def Complaint.message : Complaint → Text
  | settingsFile e => "cannot read config: " ++ e.message
  | settingsText => "invalid config JSON"
  | unknownDialect name => "invalid dialect: " ++ name
  | inputFile path e => "cannot read " ++ path ++ ": " ++ e.message
  | standardInput e => "cannot read stdin: " ++ e.message
  | source f => f.message
  | outputFile path e => "cannot write " ++ path ++ ": " ++ e.message

/-- The result, or a complaint about its absence. -/
def orComplain {ε α : Type} (complaint : ε → Complaint) (result : Except ε α) :
    Except Complaint α :=
  result.mapError complaint

/-! ## Settings -/

/-- The files in which settings are looked for if none is named. -/
def settingsPaths : List Text := ["llfront.config.json", "config/llfront.config.json"]

/-- The settings after those of a file, with what the arguments say instead. -/
def withArguments (args : Arguments) (s : Settings) : Except Complaint Settings := do
  let dialect ← match args.value? .dialect with
    | none => pure s.dialect
    | some name =>
      match Dialect.ofName? name with
      | some d => pure (some d)
      | none => throw (.unknownDialect name)
  return {
    dialect := dialect
    extendedAsDouble := s.extendedAsDouble || args.has .extendedAsDouble
    readBodies := s.readBodies || args.has .eager }

/-! ## The run -/

section
variable {m : Type → Type} [Monad m]

/-- The path of the file with the settings, if there is one. -/
def settingsPath? (host : Host m) (args : Arguments) : m (Option Text) :=
  match args.value? .config with
  | some path => pure (some path)
  | none => settingsPaths.findM? host.isFile

/-- The settings of a run. -/
def settings (host : Host m) (args : Arguments) : ExceptT Complaint m Settings := do
  let s ← match ← (settingsPath? host args : m _) with
    | none => pure .standard
    | some path => do
      let text ← ExceptT.mk (orComplain .settingsFile <$> host.readFile path)
      match Settings.ofText? text with
      | some s => pure s
      | none => throw .settingsText
  withArguments args s

/-- The source of a run: the named file, or the standard input. -/
def source (host : Host m) (args : Arguments) : ExceptT Complaint m Text :=
  match args.value? .input with
  | some path => ExceptT.mk (orComplain (.inputFile path) <$> host.readFile path)
  | none => ExceptT.mk (orComplain .standardInput <$> host.readInput)

/-- What is told about a module if it is asked for. -/
def report (m : Module) : Text :=
  m.dialect.name ++ " dialect, " ++ Text.ofNat m.types.names.length ++ " type(s)"

/-- The run for arguments that are in order. -/
def perform (host : Host m) (args : Arguments) : ExceptT Complaint m Outcome := do
  let s ← settings host args
  let text ← source host args
  let whole ← orComplain .source (Module.ofText s text)
  let whole ← orComplain .source (if args.has .expand then whole.expand else .ok whole)
  let json := whole.json.pretty ++ ['\n']
  let told := if args.has .verbose then [report whole] else []
  match args.value? .output with
  | none => return ⟨0, json, told⟩
  | some path =>
    ExceptT.mk (orComplain (.outputFile path) <$> host.writeFile path json)
    let summary : Text := "parsed " ++ Text.ofNat whole.nodes.length ++ " node(s), "
      ++ Text.ofNat whole.stubs.length ++ " deferred function(s) -> " ++ path
    return ⟨0, [], told ++ [summary]⟩

/-- How the program is called. -/
def usage : List Text := [
  "usage: llvm-asm [options] [input]",
  "",
  "Reads LLVM assembly text, from standard input if no input is named, and writes",
  "its statements as JSON.",
  "",
  "  -o, --output FILE    write to a file",
  "  --config FILE        read the settings in a file",
  "  --dialect old|new    do not tell the dialect from the source",
  "  --fake-x86-fp80      read the type x86_fp80 as double",
  "  --eager              read the bodies of functions at once",
  "  --expand             add the nodes of the functions that are set aside",
  "  -v, --verbose        tell about the run",
  "  -h, --help           show this text"]

/-- The run for the words of a command line. -/
def run (host : Host m) (words : List Text) : m Outcome :=
  match Arguments.ofWords words with
  | .error .help => pure ⟨0, usage.flatMap (· ++ ['\n']), []⟩
  | .error refusal => pure ⟨2, [], [refusal.message, "see --help"]⟩
  | .ok args => do
    match ← (perform host args).run with
    | .ok outcome => return outcome
    | .error complaint => return ⟨1, [], ["error: " ++ complaint.message]⟩

end

end LlvmAsm.Command
