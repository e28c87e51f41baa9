/-
  Lexemes: the pieces into which a line falls before groups are looked into.

  A line is cut at blanks, commas and quotes, and around enclosers, but only
  outside of enclosers and quotes. `Scan` is the state of one pass over the
  characters, `Scan.step` the effect of a character, and `cut` the whole pass.
  The pass counts the open enclosers of each kind; whether they are properly
  nested shows when the inside of each group is cut in turn.

  * `Lexeme` is a comma or a run of characters;
  * `Fault` is what can be wrong with the enclosers and quotes of a line;
  * `sizes_cut_le`: the lexemes of a text together are no longer than the text.
-/
import LlvmAsm.Token

namespace LlvmAsm

/-- A piece of a line: a comma, or a nonempty run of other characters. -/
inductive Lexeme where
  | comma
  | run (first : Char) (rest : Text)
deriving DecidableEq, Repr

namespace Lexeme

/-- The number of characters of a lexeme. -/
def size : Lexeme → Nat
  | comma => 1
  | run _ rest => rest.length + 1

/-- The number of characters of a list of lexemes. -/
def sizes (ls : List Lexeme) : Nat := ls.foldr (fun l n => l.size + n) 0

/-- The run of the given characters, if there are any. -/
def ofText : Text → List Lexeme
  | [] => []
  | c :: t => [run c t]

@[simp] theorem sizes_nil : sizes [] = 0 := rfl

@[simp] theorem sizes_cons (l : Lexeme) (ls : List Lexeme) :
    sizes (l :: ls) = l.size + sizes ls := rfl

@[simp] theorem sizes_append (ls ms : List Lexeme) : sizes (ls ++ ms) = sizes ls + sizes ms := by
  induction ls with
  | nil => simp
  | cons l ls ih => simp +arith [ih]

@[simp] theorem sizes_ofText (t : Text) : sizes (ofText t) = t.length := by
  cases t <;> simp [ofText, sizes, size]

end Lexeme

/-! ## The state of the pass -/

/-- What is wrong with the enclosers and quotes of a line. -/
inductive Fault where
  /-- a closer without an opener -/
  | stray (closer : Char)
  /-- an opener without a closer -/
  | unclosed
  /-- a quote without a second one -/
  | unterminated
deriving DecidableEq, Repr

/-- The number of open enclosers of each kind. -/
structure Depths where
  bracket : Nat
  paren : Nat
  angle : Nat
deriving DecidableEq, Repr

namespace Depths

/-- No encloser is open. -/
def zero : Depths := ⟨0, 0, 0⟩

/-- One more encloser of the given kind. Braces are not counted. -/
def raise (d : Depths) : Encloser → Depths
  | .bracket => { d with bracket := d.bracket + 1 }
  | .paren => { d with paren := d.paren + 1 }
  | .angle => { d with angle := d.angle + 1 }
  | .brace => d

/-- One encloser of the given kind less, if one is open. -/
def lower? (d : Depths) : Encloser → Option Depths
  | .bracket => if d.bracket = 0 then none else some { d with bracket := d.bracket - 1 }
  | .paren => if d.paren = 0 then none else some { d with paren := d.paren - 1 }
  | .angle => if d.angle = 0 then none else some { d with angle := d.angle - 1 }
  | .brace => none

/-- The number of open enclosers of all kinds. -/
def sum (d : Depths) : Nat := d.bracket + d.paren + d.angle

end Depths

/-- The state of the pass between two characters. -/
structure Scan where
  /-- the characters of the unfinished run, the latest first -/
  held : Text
  /-- a quote is open -/
  quoted : Bool
  /-- the open enclosers of each kind -/
  depths : Depths
  /-- the number of open enclosers -/
  total : Nat
deriving DecidableEq, Repr

namespace Scan

/-- The state before the first character. -/
def start : Scan := ⟨[], false, .zero, 0⟩

/-- The unfinished run. -/
def pending (s : Scan) : Text := s.held.reverse

/-- The unfinished run as a lexeme. -/
def released (s : Scan) : List Lexeme := Lexeme.ofText s.pending

/-- The unfinished run goes on with `c`. -/
def hold (s : Scan) (c : Char) : Scan := { s with held := c :: s.held }

/-- A new run begins with the given characters, the latest first. -/
def restart (s : Scan) (held : Text) : Scan := { s with held := held }

/-- Blanks, commas and quotes delimit runs here: no encloser is open and no
    quote. -/
def isFree (s : Scan) : Bool := s.total = 0 && !s.quoted

/-- The effect of a quote. Outside of enclosers it delimits a run of its own,
    together with a sigil right before it. -/
def quote (s : Scan) : List Lexeme × Scan :=
  let turned := { s with quoted := !s.quoted }
  if s.total ≠ 0 then ([], turned.hold '"')
  else if s.quoted then ((s.hold '"').released, turned.restart [])
  else if s.held = ['@'] ∨ s.held = ['%'] then ([], turned.hold '"')
  else (s.released, turned.restart ['"'])

/-- The effect of an opener: a group begins a run of its own. -/
def openGroup (s : Scan) (c : Char) (e : Encloser) : List Lexeme × Scan :=
  let deeper := { s with depths := s.depths.raise e, total := s.total + 1 }
  if s.total = 0 then (s.released, deeper.restart [c]) else ([], deeper.hold c)

/-- The effect of a closer: the end of a group ends its run. -/
def closeGroup (s : Scan) (c : Char) (e : Encloser) : Except Fault (List Lexeme × Scan) :=
  match s.depths.lower? e with
  | none => .error (.stray c)
  | some depths =>
    let higher := { s with depths := depths, total := s.total - 1 }
    if higher.total = 0 then .ok ((higher.hold c).released, higher.restart [])
    else .ok ([], higher.hold c)

/-- The effect of a character: the lexemes that it completes, and the next
    state. -/
def step (s : Scan) (c : Char) : Except Fault (List Lexeme × Scan) :=
  if c = '"' then .ok s.quote
  else if c = ' ' ∨ c = '\t' then
    if s.isFree then .ok (s.released, s.restart []) else .ok ([], s.hold c)
  else if c = ',' then
    if s.isFree then .ok (s.released ++ [.comma], s.restart []) else .ok ([], s.hold c)
  else if s.quoted then .ok ([], s.hold c)
  else match Encloser.ofOpener? c, Encloser.ofCloser? c with
    | some e, _ => .ok (s.openGroup c e)
    | none, some e => s.closeGroup c e
    | none, none => .ok ([], s.hold c)

/-- What is wrong at the end of a line in the given state. -/
def endFault? (s : Scan) : Option Fault :=
  if s.total ≠ 0 then some .unclosed
  else if s.quoted then some .unterminated
  else none

/-- The rest of the pass: the lexemes completed before the first fault, and
    that fault, if there is one. -/
def cutFrom (s : Scan) : Text → List Lexeme × Option Fault
  | [] =>
    match s.endFault? with
    | some fault => ([], some fault)
    | none => (s.released, none)
  | c :: t =>
    match s.step c with
    | .error fault => ([], some fault)
    | .ok (done, s') =>
      let (more, fault?) := s'.cutFrom t
      (done ++ more, fault?)

/-! ## Sizes -/

theorem sizes_released (s : Scan) : Lexeme.sizes s.released = s.held.length := by
  simp [released, pending]

theorem sizes_quote (s : Scan) :
    Lexeme.sizes s.quote.1 + s.quote.2.held.length = s.held.length + 1 := by
  simp only [quote]
  split
  · simp [hold]
  · split
    · simp [restart, sizes_released, hold]
    · split
      · simp [hold]
      · simp [restart, sizes_released]

theorem sizes_openGroup (s : Scan) (c : Char) (e : Encloser) :
    Lexeme.sizes (s.openGroup c e).1 + (s.openGroup c e).2.held.length = s.held.length + 1 := by
  simp only [openGroup]
  split
  · simp [restart, sizes_released]
  · simp [hold]

theorem sizes_closeGroup {s s' : Scan} {c : Char} {e : Encloser} {done : List Lexeme}
    (h : s.closeGroup c e = .ok (done, s')) :
    Lexeme.sizes done + s'.held.length = s.held.length + 1 := by
  simp only [closeGroup] at h
  split at h
  · cases h
  · split at h
    · cases h
      simp [restart, sizes_released, hold]
    · cases h
      simp [hold]

/-- A step puts out or holds the characters held before and the new one, less
    the blanks between runs. -/
theorem sizes_step {s s' : Scan} {c : Char} {done : List Lexeme}
    (h : s.step c = .ok (done, s')) :
    Lexeme.sizes done + s'.held.length ≤ s.held.length + 1 := by
  simp only [step] at h
  split at h
  · have := sizes_quote s
    rw [Except.ok.inj h] at this
    exact Nat.le_of_eq this
  split at h
  · split at h <;> cases h <;> simp [hold, restart, sizes_released]
  split at h
  · split at h <;> cases h <;> simp [hold, restart, sizes_released, Lexeme.size]
  split at h
  · cases h
    simp [hold]
  split at h
  · rename_i e _
    have := sizes_openGroup s c e
    rw [Except.ok.inj h] at this
    exact Nat.le_of_eq this
  · exact Nat.le_of_eq (sizes_closeGroup h)
  · cases h
    simp [hold]

theorem sizes_cutFrom_le (s : Scan) (t : Text) :
    Lexeme.sizes (s.cutFrom t).1 ≤ s.held.length + t.length := by
  induction t generalizing s with
  | nil =>
    simp only [cutFrom]
    split
    · simp
    · simp [sizes_released]
  | cons c t ih =>
    simp only [cutFrom]
    split
    · simp
    · rename_i done s' h
      have := sizes_step h
      have := ih s'
      simp only [Lexeme.sizes_append, List.length_cons]
      omega

end Scan

/-- The lexemes of a line up to the first fault of its enclosers and quotes,
    and that fault, if there is one. -/
def cut (t : Text) : List Lexeme × Option Fault := Scan.start.cutFrom t

/-- The lexemes of a text together are no longer than the text. -/
theorem sizes_cut_le (t : Text) : Lexeme.sizes (cut t).1 ≤ t.length := by
  have := Scan.sizes_cutFrom_le .start t
  simpa [cut, Scan.start] using this

end LlvmAsm
