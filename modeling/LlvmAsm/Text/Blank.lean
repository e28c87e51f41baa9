/-
  Blanks: the characters with the Unicode property White_Space, and the cuts
  that depend on them.

  * `isBlank` is the property;
  * `Text.trimStart`, `Text.trimEnd` and `Text.trim` drop blanks at the ends,
    `Text.words` are the maximal runs of other characters, and `Text.allBlank`
    says that a text holds nothing else.
-/
import LlvmAsm.Text

namespace LlvmAsm

/-- The ranges of the property White_Space. -/
def blankRanges : List (Nat × Nat) :=
  [(0x9, 0xD), (0x20, 0x20), (0x85, 0x85), (0xA0, 0xA0), (0x1680, 0x1680), (0x2000, 0x200A),
   (0x2028, 0x2029), (0x202F, 0x202F), (0x205F, 0x205F), (0x3000, 0x3000)]

/-- The character is white space. -/
def isBlank (c : Char) : Bool :=
  blankRanges.any fun r => r.1 ≤ c.toNat && c.toNat ≤ r.2

namespace Text

/-- The text without the blanks that it begins with. -/
def trimStart (t : Text) : Text := t.dropWhile isBlank

/-- The text without the blanks that it ends with. -/
def trimEnd (t : Text) : Text := (t.reverse.dropWhile isBlank).reverse

/-- The text without the blanks at either end. -/
def trim (t : Text) : Text := t.trimStart.trimEnd

/-- The maximal runs of characters that are not blank. -/
def words (t : Text) : List Text := (splitWhere isBlank t).filter (!·.isEmpty)

/-- The text holds nothing but blanks. -/
def allBlank (t : Text) : Bool := t.all isBlank

/-- The blanks at the end of a text are dropped, and nothing before them. -/
theorem trimEnd_append {t blanks : Text} (hblanks : ∀ c ∈ blanks, isBlank c = true)
    (hlast : ∀ c ∈ t.getLast?, isBlank c = false) : trimEnd (t ++ blanks) = t := by
  rw [trimEnd, List.reverse_append, dropWhile_exact (by simpa using hblanks)
    (by simpa using hlast), List.reverse_reverse]

theorem trimEnd_eq_self {t : Text} (hlast : ∀ c ∈ t.getLast?, isBlank c = false) :
    trimEnd t = t := by
  simpa using trimEnd_append (List.forall_mem_nil _) hlast

/-- A text is what is left of it and blanks. -/
theorem exists_trimEnd_append (t : Text) : ∃ blanks, t = trimEnd t ++ blanks := by
  refine ⟨(t.reverse.takeWhile isBlank).reverse, ?_⟩
  rw [trimEnd, ← List.reverse_append, List.takeWhile_append_dropWhile, List.reverse_reverse]

theorem not_isBlank_getLast?_trimEnd (t : Text) : ∀ c ∈ (trimEnd t).getLast?, isBlank c = false := by
  intro c hc
  rw [trimEnd, List.getLast?_reverse] at hc
  have hhead := List.head?_dropWhile_not isBlank t.reverse
  rwa [Option.mem_def.1 hc] at hhead

end Text

end LlvmAsm
