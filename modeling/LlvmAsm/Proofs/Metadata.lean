/-
  Laws of taking out metadata.

  What is left of a line does not depend on other lines (`Metadata.left`). Only
  indented lines and definitions of metadata are touched, so that functions
  begin and end where they did, and plain lines stay plain
  (`Metadata.plainOutside_extract`).
-/
import LlvmAsm.Metadata.Extraction
import LlvmAsm.Proofs.Deferral

namespace LlvmAsm.Metadata

/-- What is left of a line without metadata. -/
def left (line : Text) : Text :=
  if isDeclaration line then []
  else if (annotation? line).isSome then unannotated line
  else if isMetadata line then []
  else line

theorem fst_extractLine (m : Metadata) (n : Nat) (line : Text) :
    (m.extractLine n line).1 = left line := by
  unfold extractLine left
  split
  · rfl
  · cases annotation? line <;> rfl

theorem fst_extractLines (m : Metadata) (n : Nat) (lines : List Text) :
    (m.extractLines n lines).1 = lines.map left := by
  induction lines generalizing m n with
  | nil => rfl
  | cons line rest ih =>
    rw [extractLines]
    dsimp only
    rw [ih, fst_extractLine, List.map_cons]

theorem fst_extract (base : Nat) (lines : List Text) :
    (extract base lines).1 = lines ∨ (extract base lines).1 = lines.map left := by
  unfold extract
  split
  · exact Or.inr (fst_extractLines _ _ _)
  · exact Or.inl rfl

/-! ## Which lines are touched -/

theorem head?_of_isDeclaration {line : Text} (h : isDeclaration line = true) :
    line.head? = some ' ' := by
  by_contra hhead
  rw [isDeclaration, afterSpaces?_eq_none hhead] at h
  cases h

theorem head?_of_isMetadata {line : Text} (h : isMetadata line = true) :
    line.head? = some '!' := by
  by_contra hhead
  have hnone : ∀ mark : Text, line.after? ('!' :: mark) = none := fun mark => by
    cases hafter : line.after? ('!' :: mark) with
    | none => rfl
    | some rest =>
      rw [Text.after?_eq_some_iff.1 hafter] at hhead
      exact absurd rfl hhead
  have hexclamation : line.after? "!" = none := hnone []
  have hnamed : line.after? "!llvm.dbg." = none := hnone _
  rw [isMetadata, definition?, hexclamation, hnamed] at h
  cases h

/-- An annotation begins with a comma. -/
theorem not_allBlank_of_annotationIn? {t : Text} (h : (annotationIn? t).isSome) :
    Text.allBlank t = false := by
  induction t with
  | nil => cases h
  | cons c t ih =>
    rw [annotationIn?] at h
    cases hclosing : closingAnnotation? (c :: t) with
    | some id =>
      cases hafter : Text.after? (c :: t) ", !dbg !" with
      | none =>
        rw [closingAnnotation?, hafter] at hclosing
        cases hclosing
      | some rest =>
        rw [Text.after?_eq_some_iff.1 hafter]
        rfl
    | none =>
      rw [hclosing] at h
      dsimp only at h
      split at h
      · cases h
      · rw [Text.allBlank, List.all_cons]
        exact Bool.and_eq_false_imp.2 fun _ => ih h

theorem head?_of_annotation? {line : Text} (h : (annotation? line).isSome) :
    line.head? = some ' ' ∧ (unannotated line).head? = some ' ' ∧
      Text.allBlank line = false := by
  unfold annotation? at h
  split at h
  · rename_i t
    have hblank := not_allBlank_of_annotationIn? h
    have hafter : Text.after? (' ' :: t) ", !dbg !" = none := rfl
    refine ⟨rfl, ?_, ?_⟩
    · rw [unannotated, hafter]
      rfl
    · rw [Text.allBlank, List.all_cons]
      exact Bool.and_eq_false_imp.2 fun _ => hblank
  · cases h

/-- **All that becomes of a line**: it is kept, or it is indented or a definition
    of metadata and becomes empty, or it stays indented. -/
theorem left_cases (line : Text) :
    left line = line ∨
    (left line = [] ∧ (line.head? = some ' ' ∨ line.head? = some '!')) ∨
    ((left line).head? = some ' ' ∧ line.head? = some ' ' ∧ Text.allBlank line = false) := by
  unfold left
  split
  · rename_i h
    exact Or.inr (Or.inl ⟨rfl, Or.inl (head?_of_isDeclaration h)⟩)
  · split
    · rename_i h
      obtain ⟨hhead, hleft, hblank⟩ := head?_of_annotation? h
      exact Or.inr (Or.inr ⟨hleft, hhead, hblank⟩)
    · split
      · rename_i h
        exact Or.inr (Or.inl ⟨rfl, Or.inr (head?_of_isMetadata h)⟩)
      · exact Or.inl rfl

theorem startsWith_eq_false {t mark : Text} {c : Char} (h : t.head? ≠ some c) :
    t.startsWith (c :: mark) = false := by
  cases t with
  | nil => rfl
  | cons a t =>
    have hne : c ≠ a := fun hca => h (by rw [hca]; rfl)
    simp [Text.startsWith, Text.after?, hne]

/-- Functions begin and end where they did. -/
theorem startsWith_left {mark : Text} {c : Char} (hspace : c ≠ ' ') (hmark : c ≠ '!')
    (line : Text) : (left line).startsWith (c :: mark) = line.startsWith (c :: mark) := by
  rcases left_cases line with h | ⟨h, hhead⟩ | ⟨h, hhead, -⟩
  · rw [h]
  · rw [h, startsWith_eq_false (by simp), startsWith_eq_false]
    rcases hhead with hhead | hhead <;> rw [hhead] <;> simp [hspace.symm, hmark.symm]
  · rw [startsWith_eq_false, startsWith_eq_false]
    · rw [hhead]
      simp [hspace.symm]
    · rw [h]
      simp [hspace.symm]

theorem isPlain_left {line : Text} (h : IsPlain line) : IsPlain (left line) := by
  rcases left_cases line with hleft | ⟨hleft, -⟩ | ⟨-, hhead, hblank⟩
  · rwa [hleft]
  · rw [hleft]
    exact Or.inl rfl
  · rcases h with h | h
    · rw [hblank] at h
      cases h
    · exact absurd hhead h

/-- **Plain lines outside of functions stay plain** if metadata is taken out. -/
theorem plainOutside_extract {lines : List Text} (h : PlainOutside false lines) (base : Nat) :
    PlainOutside false (extract base lines).1 := by
  have hmap : ∀ {inside}, PlainOutside inside lines → PlainOutside inside (lines.map left) := by
    clear h
    induction lines with
    | nil => exact id
    | cons line rest ih =>
      intro inside h
      have hopens : opensFunction (left line) = opensFunction line :=
        startsWith_left (by decide) (by decide) line
      have hcloses : closesFunction (left line) = closesFunction line :=
        startsWith_left (by decide) (by decide) line
      rw [List.map_cons]
      unfold PlainOutside
      rw [hopens, hcloses]
      exact ⟨fun hfunction => isPlain_left (h.1 hfunction), ih h.2⟩
  rcases fst_extract base lines with heq | heq <;> rw [heq]
  · exact h
  · exact hmap h

end LlvmAsm.Metadata
