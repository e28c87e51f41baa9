/-
  The lines of a source stay where they are when metadata is taken out.

  A line that holds nothing but metadata (`Metadata.OnlyMetadata`) becomes empty, an
  annotated one (`Metadata.Annotated`) loses the first annotation in it, and every other
  line is kept (`Metadata.Extracted`). The annotation is recorded under the number of
  its line. `Metadata.extract_aligned` is about a whole source.

  The shapes of lines are stated as texts put together, and each recogniser has one
  lemma that says which shape it recognises.
-/
import LlvmAsm.Proofs.Metadata
import Mathlib.Data.List.Forall2

namespace LlvmAsm

/-! ## Pieces of lines -/

/-- The text is a number: digits, at least one. -/
def IsNumber (t : Text) : Prop := t ≠ [] ∧ ∀ c ∈ t, isDigit c = true

/-- The text is a gap: spaces, at least one. -/
def IsGap (t : Text) : Prop := t ≠ [] ∧ ∀ c ∈ t, c = ' '

theorem leadingDigits?_number {id rest : Text} (h : IsNumber id)
    (hrest : ∀ c ∈ rest.head?, isDigit c = false) :
    Text.leadingDigits? (id ++ rest) = some (id, rest) :=
  Text.leadingDigits?_append h.2 h.1 hrest

theorem number_of_leadingDigits? {t id rest : Text} (h : t.leadingDigits? = some (id, rest)) :
    t = id ++ rest ∧ IsNumber id := by
  obtain ⟨ht, hne, hdigits, -⟩ := Text.leadingDigits?_eq_some_iff.1 h
  exact ⟨ht, hne, hdigits⟩

/-- There are digits in front of a text that begins with a number. -/
theorem isSome_leadingDigits? {id : Text} (h : IsNumber id) (rest : Text) :
    (Text.leadingDigits? (id ++ rest)).isSome := by
  obtain ⟨c, id, rfl⟩ := List.exists_cons_of_ne_nil h.1
  rw [Text.leadingDigits?, List.cons_append, List.takeWhile_cons_of_pos (h.2 c List.mem_cons_self)]
  rfl

theorem afterSpaces?_eq_some_iff {t rest : Text} :
    t.afterSpaces? = some rest ↔ ∃ gap, IsGap gap ∧ t = gap ++ rest ∧ rest.head? ≠ some ' ' := by
  constructor
  · intro h
    unfold Text.afterSpaces? at h
    split at h
    · rename_i t
      cases h
      refine ⟨' ' :: t.takeWhile (· = ' '), ⟨by simp, fun c hc => ?_⟩, ?_, fun hhead => ?_⟩
      · rcases List.mem_cons.1 hc with rfl | hc
        · rfl
        · simpa using List.all_eq_true.1 List.all_takeWhile c hc
      · rw [List.cons_append, List.takeWhile_append_dropWhile]
      · have := List.head?_dropWhile_not (· = ' ') t
        rw [hhead] at this
        cases this
    · cases h
  · rintro ⟨gap, ⟨hne, hgap⟩, rfl, hhead⟩
    obtain ⟨c, gap, rfl⟩ := List.exists_cons_of_ne_nil hne
    obtain ⟨rfl, hgap⟩ := List.forall_mem_cons.1 hgap
    rw [List.cons_append, Text.afterSpaces?, dropWhile_exact]
    · simpa using hgap
    · intro c hc
      rw [Option.mem_def] at hc
      rw [hc] at hhead
      simpa using hhead

namespace Metadata

/-! ## Lines that hold nothing but metadata -/

/-- The line calls `llvm.dbg.declare`: it is indented, and the call goes on in any way. -/
def Declares (line : Text) : Prop :=
  ∃ gap rest, IsGap gap ∧ line = gap ++ (("call void @llvm.dbg.declare(metadata " : Text) ++ rest)

/-- The line defines a metadata id: `!id = metadata definition`. -/
def Defines (line id definition : Text) : Prop :=
  IsNumber id ∧ line = '!' :: (id ++ ((" = metadata " : Text) ++ definition))

/-- The line names a list of ids for the debugger: `!llvm.dbg.name = …`. -/
def NamesIds (line : Text) : Prop :=
  ∃ name rest, name ≠ [] ∧ (∀ c ∈ name, isWordChar c = true) ∧
    line = ("!llvm.dbg." : Text) ++ (name ++ ((" = " : Text) ++ rest))

/-- The line holds nothing but metadata. -/
inductive OnlyMetadata (line : Text) : Prop where
  | declaration (h : Declares line)
  | list {id elements : Text} (h : Defines line id (("!\x7b" : Text) ++ elements))
  | names (h : NamesIds line)

section
variable {line : Text}

theorem isOneLine_iff {t : Text} : isOneLine t = true ↔ '\n' ∉ t := by
  rw [isOneLine, Bool.not_eq_true', List.contains_eq_mem, decide_eq_false_iff_not]

theorem isDeclaration_iff (hline : '\n' ∉ line) : isDeclaration line = true ↔ Declares line := by
  rw [isDeclaration, Option.any_eq_true]
  simp only [Option.bind_eq_some_iff, afterSpaces?_eq_some_iff, Text.after?_eq_some_iff,
    isOneLine_iff]
  constructor
  · rintro ⟨rest, ⟨_, ⟨gap, hgap, rfl, -⟩, rfl⟩, -⟩
    exact ⟨gap, rest, hgap, rfl⟩
  · rintro ⟨gap, rest, hgap, rfl⟩
    refine ⟨rest, ⟨_, ⟨gap, hgap, rfl, by simp⟩, rfl⟩, fun hmem => hline ?_⟩
    exact List.mem_append_right _ (List.mem_append_right _ hmem)

theorem definition?_eq_some_iff {id definition : Text} :
    definition? line = some (id, definition) ↔ Defines line id definition := by
  simp only [definition?, Option.bind_eq_bind, Option.bind_eq_some_iff, Option.pure_def,
    Text.after?_eq_some_iff]
  constructor
  · rintro ⟨_, rfl, ⟨id', rest⟩, hdigits, _, rfl, heq⟩
    cases heq
    obtain ⟨rfl, hid⟩ := number_of_leadingDigits? hdigits
    exact ⟨hid, rfl⟩
  · rintro ⟨hid, rfl⟩
    refine ⟨_, rfl, (id, _), leadingDigits?_number hid fun c hc => ?_, definition, rfl, rfl⟩
    cases hc
    decide

/-- The word in front of a text that begins with one. -/
theorem word_iff {t rest : Text} :
    (if Text.startsWord t then Text.after? (t.dropWhile isWordChar) " = " else none) = some rest ↔
      ∃ name, name ≠ [] ∧ (∀ c ∈ name, isWordChar c = true) ∧
        t = name ++ ((" = " : Text) ++ rest) := by
  constructor
  · intro h
    split at h
    · rename_i hword
      refine ⟨t.takeWhile isWordChar, ?_, List.all_eq_true.1 List.all_takeWhile, ?_⟩
      · cases t with
        | nil => cases hword
        | cons c t =>
          have hc : isWordChar c = true := hword
          simp [hc]
      · rw [← Text.after?_eq_some_iff.1 h, List.takeWhile_append_dropWhile]
    · cases h
  · rintro ⟨name, hne, hname, rfl⟩
    obtain ⟨c, name, rfl⟩ := List.exists_cons_of_ne_nil hne
    have hword : Text.startsWord (c :: name ++ ((" = " : Text) ++ rest)) = true :=
      hname c List.mem_cons_self
    rw [if_pos hword, dropWhile_exact hname fun c hc => ?_]
    · exact Text.after?_eq_some_iff.2 rfl
    · cases hc
      decide

theorem isMetadata_iff (hline : '\n' ∉ line) :
    isMetadata line = true ↔
      (∃ id elements, Defines line id (("!\x7b" : Text) ++ elements)) ∨ NamesIds line := by
  rw [isMetadata, Bool.or_eq_true, Option.any_eq_true, Option.any_eq_true]
  simp only [Option.bind_eq_some_iff, Prod.exists, definition?_eq_some_iff,
    Text.after?_eq_some_iff, word_iff, isOneLine_iff]
  refine or_congr ⟨?_, ?_⟩ ⟨?_, ?_⟩
  · rintro ⟨elements, ⟨id, _, h, rfl⟩, -⟩
    exact ⟨id, elements, h⟩
  · rintro ⟨id, elements, h⟩
    refine ⟨elements, ⟨id, _, h, rfl⟩, fun hmem => hline ?_⟩
    rw [h.2]
    simp [hmem]
  · rintro ⟨rest, ⟨_, rfl, name, hne, hname, rfl⟩, -⟩
    exact ⟨name, rest, hne, hname, rfl⟩
  · rintro ⟨name, rest, hne, hname, rfl⟩
    refine ⟨rest, ⟨_, rfl, name, hne, hname, rfl⟩, fun hmem => hline ?_⟩
    simp [hmem]

end

/-! ## Annotated lines -/

/-- The text is a comment that counts the uses of a value: `; [#uses=count]` after a gap. -/
def CountsUses (t : Text) : Prop :=
  ∃ gap count, IsGap gap ∧ IsNumber count ∧
    t = gap ++ (("; [#uses=" : Text) ++ (count ++ [']']))

/-- The text is the annotation `, !dbg !id`, after which a comment may count the uses. -/
def IsClosing (t id : Text) : Prop :=
  ∃ uses, (uses = [] ∨ CountsUses uses) ∧ IsNumber id ∧
    t = (", !dbg !" : Text) ++ (id ++ uses)

/-- The line is indented and ends with an annotation. -/
def Annotated (line id : Text) : Prop :=
  ∃ before closing, IsClosing closing id ∧ line = ' ' :: (before ++ closing)

theorem isUsesComment_iff {t : Text} : isUsesComment t = true ↔ CountsUses t := by
  simp only [isUsesComment, afterNumber?, Option.any_eq_true, Option.bind_eq_some_iff,
    Option.map_eq_some_iff, afterSpaces?_eq_some_iff, Text.after?_eq_some_iff, decide_eq_true_eq]
  constructor
  · rintro ⟨_, ⟨_, ⟨_, ⟨gap, hgap, rfl, -⟩, rfl⟩, ⟨count, _⟩, hdigits, rfl⟩, rfl⟩
    obtain ⟨rfl, hcount⟩ := number_of_leadingDigits? hdigits
    exact ⟨gap, count, hgap, hcount, rfl⟩
  · rintro ⟨gap, count, hgap, hcount, rfl⟩
    refine ⟨_, ⟨_, ⟨_, ⟨gap, hgap, rfl, by simp⟩, rfl⟩, (count, _), ?_, rfl⟩, rfl⟩
    refine leadingDigits?_number hcount fun c hc => ?_
    cases hc
    decide

theorem closingAnnotation?_eq_some_iff {t id : Text} :
    closingAnnotation? t = some id ↔ IsClosing t id := by
  simp only [closingAnnotation?, Option.bind_eq_bind, Option.bind_eq_some_iff,
    Text.after?_eq_some_iff, Option.ite_none_right_eq_some, isUsesComment_iff]
  constructor
  · rintro ⟨_, rfl, ⟨id', uses⟩, hdigits, huses, heq⟩
    cases heq
    obtain ⟨rfl, hid⟩ := number_of_leadingDigits? hdigits
    exact ⟨uses, huses, hid, rfl⟩
  · rintro ⟨uses, huses, hid, rfl⟩
    refine ⟨_, rfl, (id, uses), leadingDigits?_number hid fun c hc => ?_, huses, rfl⟩
    rcases huses with rfl | ⟨gap, count, ⟨hne, hgap⟩, -, rfl⟩
    · cases hc
    · obtain ⟨d, gap, rfl⟩ := List.exists_cons_of_ne_nil hne
      cases hc
      rw [hgap c List.mem_cons_self]
      decide

/-- There is one comma in an annotation that ends a line, and it begins with it. -/
theorem IsClosing.comma {t id : Text} (h : IsClosing t id) :
    ∃ rest, t = ',' :: rest ∧ ',' ∉ rest := by
  obtain ⟨uses, huses, hid, rfl⟩ := h
  have hnumber : ∀ {id : Text}, IsNumber id → ',' ∉ id := fun hid hmem => by
    have := hid.2 _ hmem
    revert this
    decide
  refine ⟨(" !dbg !" : Text) ++ (id ++ uses), rfl, fun hmem => ?_⟩
  have huses : ',' ∉ uses := by
    rcases huses with rfl | ⟨gap, count, hgap, hcount, rfl⟩
    · exact List.not_mem_nil
    · have hgap : ',' ∉ gap := fun hmem => by cases hgap.2 _ hmem
      simp only [List.mem_append, not_or]
      exact ⟨hgap, by decide, hnumber hcount, by decide⟩
  rcases List.mem_append.1 hmem with hmem | hmem
  · revert hmem
    decide
  · exact (List.mem_append.1 hmem).elim (hnumber hid) huses

/-- Nothing but the whole of an annotation ends a line and is an annotation. -/
theorem IsClosing.eq_of_suffix {t closing before id id' : Text} (h : IsClosing t id)
    (h' : IsClosing closing id') (ht : t = before ++ closing) : before = [] := by
  obtain ⟨rest, rfl, hrest⟩ := h.comma
  obtain ⟨rest', rfl, -⟩ := h'.comma
  cases before with
  | nil => rfl
  | cons c before =>
    rw [List.cons_append, List.cons.injEq] at ht
    exact absurd (ht.2 ▸ List.mem_append_right before List.mem_cons_self) hrest

theorem annotationIn?_eq_some_iff {t id : Text} (ht : '\n' ∉ t) :
    annotationIn? t = some id ↔ ∃ before closing, IsClosing closing id ∧ t = before ++ closing := by
  induction t with
  | nil =>
    refine ⟨nofun, ?_⟩
    rintro ⟨before, closing, h, hnil⟩
    obtain ⟨rest, rfl, -⟩ := h.comma
    simp at hnil
  | cons c t ih =>
    rw [annotationIn?]
    cases hclosing : closingAnnotation? (c :: t) with
    | some id' =>
      have h' := closingAnnotation?_eq_some_iff.1 hclosing
      constructor
      · rintro ⟨⟩
        exact ⟨[], c :: t, h', rfl⟩
      · rintro ⟨before, closing, h, heq⟩
        obtain rfl := h'.eq_of_suffix h heq
        rw [heq] at hclosing
        exact hclosing.symm.trans (closingAnnotation?_eq_some_iff.2 h)
    | none =>
      have hc : c ≠ '\n' := fun hc => ht (hc ▸ List.mem_cons_self)
      dsimp only
      rw [if_neg hc, ih fun hmem => ht (List.mem_cons_of_mem _ hmem)]
      constructor
      · rintro ⟨before, closing, h, rfl⟩
        exact ⟨c :: before, closing, h, rfl⟩
      · rintro ⟨before, closing, h, heq⟩
        cases before with
        | nil =>
          rw [heq, List.nil_append, closingAnnotation?_eq_some_iff.2 h] at hclosing
          cases hclosing
        | cons d before =>
          rw [List.cons_append, List.cons.injEq] at heq
          exact ⟨before, closing, h, heq.2⟩

theorem annotation?_eq_some_iff {line id : Text} (hline : '\n' ∉ line) :
    annotation? line = some id ↔ Annotated line id := by
  unfold annotation?
  split
  · rename_i t
    rw [annotationIn?_eq_some_iff fun hmem => hline (List.mem_cons_of_mem _ hmem)]
    simp only [Annotated, List.cons.injEq, true_and]
  · rename_i hindent
    refine ⟨nofun, ?_⟩
    rintro ⟨before, closing, -, rfl⟩
    exact absurd rfl (hindent _)

/-! ## Taking an annotation off -/

/-- The text `before` stands in front of an annotation in the line, and `after` behind it. -/
def HasAnnotation (line before after : Text) : Prop :=
  ∃ id, IsNumber id ∧ line = before ++ ((", !dbg !" : Text) ++ (id ++ after))

/-- The text `rest` is the line without the first annotation in it, all digits included. -/
def LosesAnnotation (line rest : Text) : Prop :=
  ∃ before after, HasAnnotation line before after ∧ (∀ c ∈ after.head?, isDigit c = false) ∧
    (∀ before' after', HasAnnotation line before' after' → before.length ≤ before'.length) ∧
    rest = before ++ after

/-- An annotation further on is one of the rest of the line. -/
theorem HasAnnotation.tail {c : Char} {t before after : Text}
    (h : HasAnnotation (c :: t) before after)
    (hnone : (Text.after? (c :: t) ", !dbg !").bind Text.leadingDigits? = none) :
    ∃ before', before = c :: before' ∧ HasAnnotation t before' after := by
  obtain ⟨id, hid, heq⟩ := h
  cases before with
  | nil =>
    have hafter : Text.after? (c :: t) ", !dbg !" = some (id ++ after) :=
      Text.after?_eq_some_iff.2 heq
    have hdigits := isSome_leadingDigits? hid after
    rw [hafter, Option.bind_some] at hnone
    rw [hnone] at hdigits
    cases hdigits
  | cons d before =>
    rw [List.cons_append, List.cons.injEq] at heq
    exact ⟨before, by rw [heq.1], id, hid, heq.2⟩

theorem losesAnnotation_unannotated {line : Text}
    (h : ∃ before after, HasAnnotation line before after) :
    LosesAnnotation line (unannotated line) := by
  induction line with
  | nil =>
    obtain ⟨before, after, id, -, heq⟩ := h
    simp at heq
  | cons c t ih =>
    rw [unannotated]
    split
    · rename_i rest hfirst
      obtain ⟨_, hafter, hdigits⟩ := Option.bind_eq_some_iff.1 hfirst
      obtain ⟨rfl, hne, hid, hrest⟩ := Text.leadingDigits?_eq_some_iff.1 hdigits
      rw [Text.after?_eq_some_iff.1 hafter]
      exact ⟨[], rest, ⟨_, ⟨hne, hid⟩, rfl⟩, hrest, fun _ _ _ => Nat.zero_le _, rfl⟩
    · rename_i hnone
      obtain ⟨before, after, h⟩ := h
      obtain ⟨before', -, h'⟩ := h.tail hnone
      obtain ⟨first, after, ⟨id, hid, rfl⟩, hrest, hfirst, hcut⟩ := ih ⟨before', after, h'⟩
      refine ⟨c :: first, after, ⟨id, hid, rfl⟩, hrest, fun before₂ after₂ h₂ => ?_, ?_⟩
      · obtain ⟨before₃, rfl, h₃⟩ := h₂.tail hnone
        exact Nat.succ_le_succ (hfirst _ _ h₃)
      · rw [hcut]
        rfl

theorem Annotated.hasAnnotation {line id : Text} (h : Annotated line id) :
    ∃ before after, HasAnnotation line before after := by
  obtain ⟨before, _, ⟨uses, -, hid, rfl⟩, rfl⟩ := h
  exact ⟨' ' :: before, uses, id, hid, rfl⟩

/-! ## What becomes of a line -/

/-- What becomes of a line of a source that defines metadata. -/
inductive Extracted (line : Text) : Text → Prop where
  | emptied (only : OnlyMetadata line) : Extracted line []
  | cut {id rest : Text} (declares : ¬ Declares line) (annotated : Annotated line id)
      (h : LosesAnnotation line rest) : Extracted line rest
  | kept (only : ¬ OnlyMetadata line) (annotated : ∀ id, ¬ Annotated line id) :
      Extracted line line

theorem extracted_left {line : Text} (hline : '\n' ∉ line) : Extracted line (left line) := by
  unfold left
  split
  · rename_i hdeclares
    exact .emptied (.declaration ((isDeclaration_iff hline).1 hdeclares))
  rename_i hdeclares
  rw [isDeclaration_iff hline] at hdeclares
  split
  · rename_i hsome
    obtain ⟨id, hid⟩ := Option.isSome_iff_exists.1 hsome
    have hid := (annotation?_eq_some_iff hline).1 hid
    exact .cut hdeclares hid (losesAnnotation_unannotated hid.hasAnnotation)
  rename_i hannotated
  split
  · rename_i hmetadata
    rcases (isMetadata_iff hline).1 hmetadata with ⟨id, elements, h⟩ | h
    · exact .emptied (.list h)
    · exact .emptied (.names h)
  · rename_i hmetadata
    rw [isMetadata_iff hline] at hmetadata
    refine .kept (fun honly => ?_) fun id hid => ?_
    · cases honly with
      | declaration h => exact hdeclares h
      | list h => exact hmetadata (.inl ⟨_, _, h⟩)
      | names h => exact hmetadata (.inr h)
    · rw [(annotation?_eq_some_iff hline).2 hid] at hannotated
      exact hannotated rfl

/-! ## What is recorded -/

theorem annotations_add (m : Metadata) (r : Record) : (m.add r).annotations = m.annotations := by
  cases r <;> rfl

/-- The id that is recorded for a line. -/
def recorded? (line : Text) : Option Text :=
  if isDeclaration line then none else annotation? line

theorem recorded?_eq_some_iff {line id : Text} (hline : '\n' ∉ line) :
    recorded? line = some id ↔ ¬ Declares line ∧ Annotated line id := by
  rw [recorded?, Option.ite_none_left_eq_some, isDeclaration_iff hline,
    annotation?_eq_some_iff hline]

theorem get?_annotations_extractLine (m : Metadata) (n k : Nat) (line : Text) :
    (m.extractLine n line).2.annotations.get? k =
      (if k = n then recorded? line else none).or (m.annotations.get? k) := by
  unfold extractLine recorded?
  split
  · simp
  · cases annotation? line with
    | some id =>
      dsimp only
      rw [Table.get?_put]
      split <;> simp
    | none => cases Record.ofLine? line <;> simp [annotations_add]

/-- A line is recorded under its number. -/
theorem get?_annotations_extractLines (m : Metadata) (n k : Nat) (lines : List Text) :
    (m.extractLines n lines).2.annotations.get? k =
      (if n ≤ k then lines[k - n]?.bind recorded? else none).or (m.annotations.get? k) := by
  induction lines generalizing m n with
  | nil => simp [extractLines]
  | cons line rest ih =>
    rw [extractLines]
    dsimp only
    rw [ih, get?_annotations_extractLine]
    rcases Nat.lt_trichotomy k n with hk | rfl | hk
    · have hnext : ¬ n + 1 ≤ k := by omega
      rw [if_neg hnext, if_neg (Nat.not_le.2 hk), if_neg (Nat.ne_of_lt hk), Option.none_or]
    · rw [if_neg (Nat.not_succ_le_self k), if_pos rfl, if_pos (Nat.le_refl k), Nat.sub_self,
        Option.none_or]
      rfl
    · have hindex : k - n = k - (n + 1) + 1 := by omega
      rw [if_pos (Nat.succ_le_of_lt hk), if_pos (Nat.le_of_lt hk), if_neg (Nat.ne_of_gt hk), Option.none_or, hindex,
        List.getElem?_cons_succ]

section
variable {base : Nat} {lines : List Text}

/-- Some line of a source defines a metadata id. -/
def DefinesSome (lines : List Text) : Prop := ∃ line ∈ lines, ∃ id text, Defines line id text

theorem any_definition_iff :
    (lines.any fun line => (definition? line).isSome) = true ↔ DefinesSome lines := by
  simp only [List.any_eq_true, Option.isSome_iff_exists, Prod.exists, definition?_eq_some_iff,
    DefinesSome]

theorem extract_of_definesSome (h : DefinesSome lines) :
    extract base lines = empty.extractLines (base + 1) lines :=
  if_pos (any_definition_iff.2 h)

theorem extract_of_not_definesSome (h : ¬ DefinesSome lines) :
    extract base lines = (lines, empty) :=
  if_neg fun hany => h (any_definition_iff.1 hany)

theorem get?_annotations_extract (h : DefinesSome lines) (n : Nat) :
    (extract base lines).2.annotations.get? n =
      if base + 1 ≤ n then lines[n - (base + 1)]?.bind recorded? else none := by
  rw [extract_of_definesSome h, get?_annotations_extractLines]
  exact Option.or_none

theorem annotations_extract_iff (h : DefinesSome lines) (hlines : ∀ line ∈ lines, '\n' ∉ line)
    {n : Nat} {id : Text} :
    (extract base lines).2.annotations.get? n = some id ↔
      ∃ i line, lines[i]? = some line ∧ n = base + (i + 1) ∧ ¬ Declares line ∧
        Annotated line id := by
  rw [get?_annotations_extract h, Option.ite_none_right_eq_some, Option.bind_eq_some_iff]
  constructor
  · rintro ⟨hn, line, hline, hid⟩
    have hid := (recorded?_eq_some_iff (hlines line (List.mem_of_getElem? hline))).1 hid
    exact ⟨n - (base + 1), line, hline, by omega, hid⟩
  · rintro ⟨i, line, hline, rfl, hid⟩
    have hid := (recorded?_eq_some_iff (hlines line (List.mem_of_getElem? hline))).2 hid
    have hindex : base + (i + 1) - (base + 1) = i := by omega
    exact ⟨by omega, line, by rw [hindex, hline], hid⟩

/-- **Taking metadata out keeps the lines in place.** No line is added or removed, and a
    line that begins neither with a space nor with an exclamation mark stays as it is.
    A source that defines no metadata id is not touched. In any other source every line
    is emptied, cut or kept, as its shape says, and the numbers under which an id is
    recorded are those of the annotated lines that are not declarations. -/
theorem extract_aligned (base : Nat) (lines : List Text) (hlines : ∀ line ∈ lines, '\n' ∉ line) :
    (extract base lines).1.length = lines.length ∧
    (∀ (i : Nat) (line : Text), lines[i]? = some line → line.head? ≠ some ' ' →
      line.head? ≠ some '!' → (extract base lines).1[i]? = some line) ∧
    (¬ DefinesSome lines → extract base lines = (lines, empty)) ∧
    (DefinesSome lines →
      List.Forall₂ Extracted lines (extract base lines).1 ∧
      ∀ n id, (extract base lines).2.annotations.get? n = some id ↔
        ∃ i line, lines[i]? = some line ∧ n = base + (i + 1) ∧ ¬ Declares line ∧
          Annotated line id) := by
  refine ⟨length_extract base lines, fun i line hi hspace hmark => ?_,
    extract_of_not_definesSome, fun h => ⟨?_, fun n id => annotations_extract_iff h hlines⟩⟩
  · have hleft : left line = line := by
      rcases left_cases line with h | ⟨-, h | h⟩ | ⟨-, h, -⟩
      · exact h
      · exact absurd h hspace
      · exact absurd h hmark
      · exact absurd h hspace
    rcases fst_extract base lines with h | h
    · rw [h, hi]
    · rw [h, List.getElem?_map, hi, Option.map_some, hleft]
  · rw [extract_of_definesSome h, fst_extractLines, List.forall₂_map_right_iff, List.forall₂_same]
    exact fun line hline => extracted_left (hlines line hline)

end

/-- A declaration with an annotation of its own, and an annotation before a comment. -/
theorem extract_aligned_of_declaration :
    let lines : List Text := ["define i32 @f(i32 %n) \x7b",
      "  call void @llvm.dbg.declare(metadata !\x7bi32* %n\x7d, metadata !0), !dbg !5",
      "  ret i32 %n, !dbg !5  ; [#uses=1]", ['}'], "!llvm.dbg.sp = !\x7b!0\x7d",
      "!5 = metadata !\x7bi32 4, i32 3, metadata !7, null\x7d"]
    (∀ line ∈ lines, '\n' ∉ line) ∧ DefinesSome lines ∧
      (extract 10 lines).1 =
        (["define i32 @f(i32 %n) \x7b", "", "  ret i32 %n  ; [#uses=1]", ['}'], "", ""] : List Text) ∧
      List.Forall₂ Extracted lines (extract 10 lines).1 ∧
      ∃ i line, lines[i]? = some line ∧ 13 = 10 + (i + 1) ∧ ¬ Declares line ∧
        Annotated line "5" := by
  intro lines
  have hlines : ∀ line ∈ lines, '\n' ∉ line := by decide
  have hdefines : DefinesSome lines := any_definition_iff.1 (by decide)
  obtain ⟨-, -, -, h⟩ := extract_aligned 10 lines hlines
  obtain ⟨hextracted, hrecorded⟩ := h hdefines
  exact ⟨hlines, hdefines, by decide, hextracted, (hrecorded 13 "5").1 (by decide)⟩

end Metadata

end LlvmAsm
