/-
  The annotation that is recorded, and the annotation that is cut out.

  The id that is recorded for a line is that of the annotation at its end
  (`Metadata.ClosedBy`), while the first annotation anywhere in the line is cut out
  (`Metadata.LosesAnnotation`). They are the same unless another annotation, or a text that
  looks like one, stands further to the front (`Metadata.IsFirst`).

  `extract_cuts_recorded_iff`: what is left of the line is the line without the annotation
  that is recorded, and is no longer annotated, exactly if that annotation is the first one.
-/
import LlvmAsm.Proofs.Extraction

namespace LlvmAsm

theorem IsNumber.not_mem {id : Text} {c : Char} (h : IsNumber id) (hc : isDigit c = false) :
    c ∉ id := fun hmem => by simpa [hc] using h.2 c hmem

namespace Metadata

/-- The line is indented and ends with the annotation `, !dbg !id`: `before` stands in front
    of it, and behind it is nothing but a comment that counts uses. -/
structure ClosedBy (line before id uses : Text) : Prop where
  indented : before.head? = some ' '
  number : IsNumber id
  behind : uses = [] ∨ CountsUses uses
  line_eq : line = before ++ ((", !dbg !" : Text) ++ (id ++ uses))

/-- No annotation of the line begins before the end of `before`. -/
def IsFirst (line before : Text) : Prop :=
  ∀ before' after', HasAnnotation line before' after' → before.length ≤ before'.length

variable {line before id uses rest : Text}

/-! ## The end of a line -/

theorem annotated_iff : Annotated line id ↔ ∃ before uses, ClosedBy line before id uses := by
  constructor
  · rintro ⟨before, _, ⟨uses, huses, hid, rfl⟩, rfl⟩
    exact ⟨' ' :: before, uses, rfl, hid, huses, rfl⟩
  · rintro ⟨before, uses, hindented, hid, huses, rfl⟩
    cases before with
    | nil => cases hindented
    | cons c before =>
      obtain rfl : c = ' ' := Option.some.inj hindented
      exact ⟨before, _, ⟨uses, huses, hid, rfl⟩, rfl⟩

/-- An id that is recorded is that of the annotation at the end of the line. -/
theorem annotated_of_annotation? (h : annotation? line = some id) : Annotated line id := by
  have hin : ∀ {t}, annotationIn? t = some id →
      ∃ before closing, IsClosing closing id ∧ t = before ++ closing := by
    intro t ht
    induction t with
    | nil => cases ht
    | cons c t ih =>
      rw [annotationIn?] at ht
      split at ht
      · rename_i hclosing
        cases ht
        exact ⟨[], c :: t, closingAnnotation?_eq_some_iff.1 hclosing, rfl⟩
      · split at ht
        · cases ht
        · obtain ⟨before, closing, hclosing, rfl⟩ := ih ht
          exact ⟨c :: before, closing, hclosing, rfl⟩
  unfold annotation? at h
  split at h
  · obtain ⟨before, closing, hclosing, rfl⟩ := hin h
    exact ⟨before, closing, hclosing, rfl⟩
  · cases h

/-- Behind the number of an annotation there is at most a space. -/
theorem head?_uses (h : uses = [] ∨ CountsUses uses) : ∀ c ∈ uses.head?, c = ' ' := by
  rcases h with rfl | ⟨gap, count, ⟨hne, hgap⟩, -, rfl⟩
  · exact nofun
  · obtain ⟨c, gap, rfl⟩ := List.exists_cons_of_ne_nil hne
    rintro _ ⟨⟩
    exact hgap c List.mem_cons_self

/-- Neither of the marks of an annotation stands in a comment that counts uses. -/
theorem not_mem_uses (h : uses = [] ∨ CountsUses uses) : ',' ∉ uses ∧ '!' ∉ uses := by
  rcases h with rfl | ⟨gap, count, hgap, hcount, rfl⟩
  · exact ⟨List.not_mem_nil, List.not_mem_nil⟩
  · have hnot : ∀ c : Char, c ≠ ' ' → c ∉ ("; [#uses=" : Text) → isDigit c = false → c ≠ ']' →
        c ∉ gap ++ (("; [#uses=" : Text) ++ (count ++ [']'])) := by
      intro c hspace hword hdigit hbracket
      simp only [List.mem_append, List.mem_singleton, not_or]
      exact ⟨fun hmem => hspace (hgap.2 c hmem), hword, hcount.not_mem hdigit, hbracket⟩
    exact ⟨hnot ',' (by decide) (by decide) (by decide) (by decide),
      hnot '!' (by decide) (by decide) (by decide) (by decide)⟩

/-- The annotation at the end of a line is one of its annotations. -/
theorem ClosedBy.hasAnnotation (h : ClosedBy line before id uses) :
    HasAnnotation line before uses := ⟨id, h.number, h.line_eq⟩

/-! ## The first annotation is the last one -/

/-- If the annotation at the end is the first one, then it is cut out, with all its digits. -/
theorem ClosedBy.eq_append (h : ClosedBy line before id uses) (hfirst : IsFirst line before)
    (hrest : LosesAnnotation line rest) : rest = before ++ uses := by
  obtain ⟨before', after, hannotation, hafter, hleast, rfl⟩ := hrest
  have hlength : before'.length = before.length :=
    Nat.le_antisymm (hleast _ _ h.hasAnnotation) (hfirst _ _ hannotation)
  obtain ⟨id', hid', hline⟩ := hannotation
  obtain ⟨rfl, htail⟩ := List.append_inj (hline.symm.trans h.line_eq) hlength
  have hnumber : id' ++ after = id ++ uses := List.append_cancel_left htail
  have huses : ∀ c ∈ uses.head?, isDigit c = false := fun c hc => by
    rw [head?_uses h.behind c hc]
    decide
  have hdigits := leadingDigits?_number hid' hafter
  rw [hnumber, leadingDigits?_number h.number huses] at hdigits
  cases hdigits
  rfl

/-- What is left then is not annotated: its annotation would stand further to the front. -/
theorem ClosedBy.not_annotated (h : ClosedBy line before id uses) (hfirst : IsFirst line before)
    (id' : Text) : ¬ Annotated (before ++ uses) id' := by
  intro hannotated
  obtain ⟨before', uses', hclosed⟩ := annotated_iff.1 hannotated
  obtain ⟨hcomma, hmark⟩ := not_mem_uses h.behind
  have heq : before ++ uses = before' ++ ((", !dbg !" : Text) ++ (id' ++ uses')) := hclosed.line_eq
  rcases List.append_eq_append_iff.1 heq with ⟨more, -, rfl⟩ | ⟨more, rfl, hmore⟩
  · -- the comment that counts uses holds no comma
    refine hcomma (List.mem_append_right _ (List.mem_append_left _ ?_))
    decide
  · -- nor an exclamation mark, so that the digits begin in front of it
    obtain ⟨digits, rfl, hdigits⟩ : ∃ digits, more = (", !dbg !" : Text) ++ digits ∧
        id' ++ uses' = digits ++ uses := by
      rcases List.append_eq_append_iff.1 hmore with ⟨digits, rfl, hdigits⟩ | ⟨end_, hend, huses⟩
      · exact ⟨digits, rfl, hdigits⟩
      · cases hlast : end_.getLast? with
        | none =>
          obtain rfl := List.getLast?_eq_none_iff.1 hlast
          exact ⟨[], by rw [hend, List.append_nil, List.append_nil], huses.symm⟩
        | some c =>
          have hc : c = '!' := by
            have hlast' := congrArg List.getLast? hend
            rw [List.getLast?_append, hlast] at hlast'
            exact (Option.some.inj hlast').symm
          subst hc
          refine absurd ?_ hmark
          rw [huses]
          exact List.mem_append_left _ (List.mem_of_getLast? hlast)
    obtain ⟨c, id'', rfl⟩ := List.exists_cons_of_ne_nil hclosed.number.1
    have hc : isDigit c = true := hclosed.number.2 c List.mem_cons_self
    cases digits with
    | nil =>
      have hspace := head?_uses h.behind c (by rw [← List.nil_append uses, ← hdigits]; rfl)
      rw [hspace] at hc
      cases hc
    | cons d digits =>
      obtain ⟨rfl, -⟩ := List.cons.inj hdigits
      have hearlier := hfirst before' (digits ++ ((", !dbg !" : Text) ++ (id ++ uses)))
        ⟨[c], ⟨by simp, by simpa using hc⟩, by rw [h.line_eq]; simp⟩
      simp only [List.length_append, List.length_cons] at hearlier
      omega

/-! ## An annotation further to the front -/

/-- If another annotation stands further to the front, then the one at the end is left. -/
theorem ClosedBy.annotated_of_not_first (h : ClosedBy line before id uses)
    (hfirst : ¬ IsFirst line before) (hrest : LosesAnnotation line rest) :
    Annotated rest id := by
  obtain ⟨before', after, ⟨id', hid', hline⟩, -, hleast, rfl⟩ := hrest
  have hlength : before'.length < before.length := by
    simp only [IsFirst, not_forall, Nat.not_le] at hfirst
    obtain ⟨b, a, hannotation, hlt⟩ := hfirst
    exact Nat.lt_of_le_of_lt (hleast b a hannotation) hlt
  have heq : before' ++ ((", !dbg !" : Text) ++ (id' ++ after)) =
      before ++ ((", !dbg !" : Text) ++ (id ++ uses)) := hline.symm.trans h.line_eq
  obtain ⟨between, rfl, hbetween⟩ : ∃ between, before = before' ++ between ∧
      (", !dbg !" : Text) ++ (id' ++ after) =
        between ++ ((", !dbg !" : Text) ++ (id ++ uses)) := by
    rcases List.append_eq_append_iff.1 heq with ⟨more, hbefore, hmore⟩ | ⟨more, rfl, -⟩
    · exact ⟨more, hbefore, hmore⟩
    · simp only [List.length_append] at hlength
      omega
  -- the annotation at the end begins with a comma, and there is none further on in the first
  obtain ⟨more, rfl⟩ : ∃ more, after = more ++ ((", !dbg !" : Text) ++ (id ++ uses)) := by
    rw [← List.append_assoc] at hbetween
    rcases List.append_eq_append_iff.1 hbetween with ⟨more, -, hmore⟩ | ⟨more, hfront, hmore⟩
    · exact ⟨more, hmore⟩
    · cases more with
      | nil => exact ⟨[], hmore.symm⟩
      | cons c more =>
        obtain rfl : ',' = c := (List.cons.inj hmore).1
        cases between with
        | nil => simp at hlength
        | cons d between =>
          have htail : (" !dbg !" : Text) ++ id' = between ++ ',' :: more :=
            (List.cons.inj hfront).2
          have hmem : ',' ∈ (" !dbg !" : Text) ++ id' := by
            rw [htail]
            exact List.mem_append_right _ List.mem_cons_self
          rcases List.mem_append.1 hmem with hmem | hmem
          · exact absurd hmem (by decide)
          · exact absurd hmem (hid'.not_mem (by decide))
  have hindented : (before' ++ more).head? = some ' ' := by
    have hline' := h.indented
    cases before' with
    | cons c before' => exact hline'
    | nil =>
      cases between with
      | nil => simp at hlength
      | cons c between =>
        obtain rfl : ',' = c := (List.cons.inj hbetween).1
        cases hline'
  exact annotated_iff.2 ⟨before' ++ more, uses, hindented, h.number, h.behind, by simp⟩

/-! ## Whole sources -/

/-- What is recorded for a line and what is left of it, in any source. -/
theorem left_of_recorded {base i : Nat} {lines : List Text}
    (h : (extract base lines).2.annotations.get? (base + (i + 1)) = some id) :
    ∃ line, lines[i]? = some line ∧ Annotated line id ∧
      (extract base lines).1[i]? = some (unannotated line) := by
  by_cases hdefines : DefinesSome lines
  · have hindex : base + (i + 1) - (base + 1) = i := by omega
    rw [get?_annotations_extract hdefines, if_pos (by omega), hindex,
      Option.bind_eq_some_iff] at h
    obtain ⟨line, hline, hrecorded⟩ := h
    rw [recorded?, Option.ite_none_left_eq_some] at hrecorded
    obtain ⟨hdeclaration, hid⟩ := hrecorded
    refine ⟨line, hline, annotated_of_annotation? hid, ?_⟩
    rw [extract_of_definesSome hdefines, fst_extractLines, List.getElem?_map, hline,
      Option.map_some, left, if_neg hdeclaration, if_pos (by rw [hid]; rfl)]
  · rw [extract_of_not_definesSome hdefines] at h
    cases h

/-- **The annotation that is recorded is cut out exactly if it is the first one of its
    line.** It is the one at the end of the line. If no other one stands further to the front,
    then what is left is the line without it, a comment that counts uses kept, and is not
    annotated; else the line stays annotated by the id that is recorded. -/
theorem extract_cuts_recorded_iff {base i : Nat} {lines : List Text} {id : Text}
    (h : (extract base lines).2.annotations.get? (base + (i + 1)) = some id) :
    ∃ line before uses out, lines[i]? = some line ∧ ClosedBy line before id uses ∧
      (extract base lines).1[i]? = some out ∧
      ((out = before ++ uses ∧ ∀ id', ¬ Annotated out id') ↔ IsFirst line before) ∧
      (IsFirst line before ∨ Annotated out id) := by
  obtain ⟨line, hline, hannotated, hout⟩ := left_of_recorded h
  obtain ⟨before, uses, hclosed⟩ := annotated_iff.1 hannotated
  have hcut := losesAnnotation_unannotated hannotated.hasAnnotation
  refine ⟨line, before, uses, _, hline, hclosed, hout, ?_, ?_⟩
  · constructor
    · rintro ⟨-, hnot⟩
      by_contra hfirst
      exact hnot id (hclosed.annotated_of_not_first hfirst hcut)
    · intro hfirst
      have hrest := hclosed.eq_append hfirst hcut
      refine ⟨hrest, ?_⟩
      rw [hrest]
      exact hclosed.not_annotated hfirst
  · by_cases hfirst : IsFirst line before
    · exact Or.inl hfirst
    · exact Or.inr (hclosed.annotated_of_not_first hfirst hcut)

/-- The comment that counts uses is kept. -/
theorem extract_cuts_recorded_iff_of_uses :
    let lines : List Text := ["  %x = load i32* %p, align 4, !dbg !12 ; [#uses=2]",
      "!12 = metadata !\x7bi32 4, i32 3, metadata !7, null\x7d"]
    (extract 20 lines).2.annotations.get? (20 + (0 + 1)) = some "12" ∧
      (extract 20 lines).1[0]? = some ("  %x = load i32* %p, align 4 ; [#uses=2]" : Text) ∧
      ∃ line before uses out, lines[0]? = some line ∧ ClosedBy line before "12" uses ∧
        (extract 20 lines).1[0]? = some out ∧
        ((out = before ++ uses ∧ ∀ id', ¬ Annotated out id') ↔ IsFirst line before) ∧
        (IsFirst line before ∨ Annotated out "12") := by
  intro lines
  have h : (extract 20 lines).2.annotations.get? (20 + (0 + 1)) = some "12" := by decide
  exact ⟨h, by decide, extract_cuts_recorded_iff h⟩

/-- A text that looks like an annotation is cut out in place of the annotation. -/
theorem not_cut_of_quoted_annotation :
    let line : Text := "  call void @note(metadata !\"see, !dbg !1\"), !dbg !2"
    let before : Text := "  call void @note(metadata !\"see, !dbg !1\")"
    let out : Text := "  call void @note(metadata !\"see\"), !dbg !2"
    let lines : List Text := [line, "!2 = metadata !\x7bi32 4, i32 3, metadata !7, null\x7d"]
    (extract 0 lines).2.annotations.get? 1 = some "2" ∧ ClosedBy line before "2" [] ∧
      (extract 0 lines).1[0]? = some out ∧ out ≠ before ++ [] ∧ annotation? out = some "2" := by
  intro line before out lines
  have hnumber : IsNumber "2" := ⟨by decide, List.all_eq_true.1 (by decide)⟩
  exact ⟨by decide, ⟨by decide, hnumber, Or.inl rfl, by decide⟩, by decide, by decide, by decide⟩

end Metadata

end LlvmAsm
