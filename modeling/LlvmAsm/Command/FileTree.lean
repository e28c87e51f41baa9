/-
  A tree of files in memory.

  * `FileTree` holds entries under their paths from the root, and the directory
    in which a program works; a directory is there if anything lies below it;
  * `FileTree.find?` follows a path, in which `.` and `..` are directories, to
    a `Place` of the tree; `FileTree.read` and `FileTree.write` are the actions
    on the place;
  * `FileTree.host` is the host of a program whose world is such a tree. Its
    standard input is the stream that lies at `inputPath`;
  * `FileTree.usual` is the tree in which a program begins. What it prints may
    be sent to the file at `outputPath`.
-/
import LlvmAsm.Command.Host
import LlvmAsm.Table

namespace LlvmAsm.Command

/-- The parts of a path between the slashes. -/
abbrev Path := List Text

/-- What lies at a path. A content is absent if the bytes are no text. -/
inductive Entry where
  | directory
  | file (content : Option Text)
  /-- a content that can be read once -/
  | stream (content : Option Text)
  /-- takes every content and keeps none -/
  | sink
deriving DecidableEq, Repr

/-- Entries under their paths from the root, and the directory where paths
    without a leading slash begin. -/
structure FileTree where
  entries : Table Path Entry
  home : Path
deriving DecidableEq, Repr

/-- What a path leads to: an entry, or a free name in a directory. The path may
    end in a slash nevertheless. -/
structure Place where
  path : Path
  entry : Option Entry
  closed : Bool
deriving DecidableEq, Repr

namespace FileTree

/-- The entry at a path. A directory lies wherever something lies below. -/
def entry? (t : FileTree) (path : Path) : Option Entry :=
  match t.entries.get? path with
  | some e => some e
  | none =>
    if (t.home :: t.entries.entries.map Prod.fst).any path.isPrefixOf then some .directory
    else none

/-- The number of bytes of a text in UTF-8. -/
def byteCount (t : Text) : Nat := t.foldr (fun c n => c.utf8Size + n) 0

/-- The greatest number of bytes in a part of a path. -/
def partLimit : Nat := 255

/-- The part has more bytes than a name may have. -/
def isTooLong (part : Text) : Bool := partLimit < byteCount part

/-- The greatest number of bytes in a path. -/
def pathLimit : Nat := 4095

/-- The place reached from a directory by the parts of a path. The parent of the
    root is the root. The place may have a name that is too long. -/
def findFrom? (t : FileTree) (directory : Path) : Path → Except FileError Place
  | [] => .ok ⟨directory, some .directory, false⟩
  | part :: rest =>
    if part = [] ∨ part = "." then t.findFrom? directory rest
    else if part = ".." then t.findFrom? directory.dropLast rest
    else match t.entry? (directory ++ [part]) with
      | some .directory => t.findFrom? (directory ++ [part]) rest
      | entry =>
        if rest.all List.isEmpty then .ok ⟨directory ++ [part], entry, !rest.isEmpty⟩
        else if isTooLong part then .error .nameTooLong
        else .error (if entry.isSome then .notDirectory else .notFound)

/-- The place that a path leads to. -/
def find? (t : FileTree) (path : Text) : Except FileError Place :=
  if byteCount path > pathLimit then .error .nameTooLong
  else t.findFrom? (if path.head? = some '/' then [] else t.home) (splitWhere (· = '/') path)

/-- The text of a content. -/
def textOf (content : Option Text) : Except FileError Text :=
  match content with
  | some text => .ok text
  | none => .error .notText

/-- The text at a path, and the tree after it has been read. -/
def read (t : FileTree) (path : Text) : Except FileError Text × FileTree :=
  match t.find? path with
  | .error e => (.error e, t)
  | .ok ⟨place, none, _⟩ => (.error (if place.any isTooLong then .nameTooLong else .notFound), t)
  | .ok ⟨_, some .directory, _⟩ => (.error .isDirectory, t)
  | .ok ⟨_, some _, true⟩ => (.error .notDirectory, t)
  | .ok ⟨_, some (.file content), false⟩ => (textOf content, t)
  | .ok ⟨place, some (.stream content), false⟩ =>
    (textOf content, { t with entries := t.entries.put place (.stream (some [])) })
  | .ok ⟨_, some .sink, false⟩ => (.ok [], t)

/-- The tree after a content has been written to a path. That a path ends in a
    slash is seen before the length of its last name. -/
def write (t : FileTree) (path content : Text) : Except FileError FileTree :=
  match t.find? path with
  | .error e => .error e
  | .ok ⟨_, _, true⟩ | .ok ⟨_, some .directory, _⟩ => .error .isDirectory
  | .ok ⟨_, some .sink, false⟩ => .ok t
  | .ok ⟨place, _, false⟩ =>
    if place.any isTooLong then .error .nameTooLong
    else .ok { t with entries := t.entries.put place (.file (some content)) }

/-- A regular file lies at the path. -/
def isFile (t : FileTree) (path : Text) : Bool :=
  match t.find? path with
  | .ok ⟨_, some (.file _), false⟩ => true
  | _ => false

/-- Where the standard input lies. -/
def inputPath : Text := "/dev/stdin"

/-- Where the standard output lies. -/
def outputPath : Text := "/dev/stdout"

/-- The host of a program whose world is a tree. -/
def host : Host (StateM FileTree) where
  isFile path := return (← get).isFile path
  readFile path := modifyGet (read · path)
  readInput := modifyGet (read · inputPath)
  writeFile path content := do
    match (← get).write path content with
    | .ok t => set t; return .ok ()
    | .error e => return .error e

/-! ## The usual tree -/

/-- The names of the directories in the usual root. -/
def usualDirectories : List Text :=
  ["bin", "boot", "dev", "etc", "home", "lib", "mnt", "opt", "proc", "root", "run", "srv",
   "sys", "tmp", "usr", "var"]

/-- A usual tree with some files in the directory of the program, and with a
    standard input. -/
def usual (input : Option Text) (files : List (Path × Text)) : FileTree :=
  let home : Path := ["tmp".toList, "work".toList]
  let device (path : Text) (e : Entry) : Path × Entry := ((splitWhere (· = '/') path).tail, e)
  let devices := [device "/dev/null" .sink, device inputPath (.stream input),
    device outputPath (.file (some [])), device "/dev/stderr" (.file (some []))]
  { entries := ⟨usualDirectories.map (fun name => ([name], .directory)) ++ devices
      ++ files.map fun (path, content) => (home ++ path, .file (some content))⟩
    home := home }

end FileTree

end LlvmAsm.Command
