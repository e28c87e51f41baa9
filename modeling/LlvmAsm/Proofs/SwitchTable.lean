/-
  Switch tables and their spelling.

  `SwitchTable` is a `switch` on an integer with its cases. It is usually spread over several
  lines, one for each case (`SwitchTable.lines`), but may stand on a single one as well
  (`SwitchTable.onLine`). Nothing separates one case from the next but blanks, so a reader
  has to count the tokens.

  * `Progress.statements_inTable`: the lines of an open table are joined to the line of the
    `switch`; those of a table are joined to the line that holds all of it
    (`SwitchTable.ofLines_lines`);
  * `SwitchTable.yields_onLine`: the tokens of that line;
  * `SwitchTable.ofLines_switch`: both spellings have the node of the table.
-/
import LlvmAsm.Proofs.Body

namespace LlvmAsm

open Reading Token

/-! ## Tables -/

/-- A case: a value and the label of its target. -/
structure TableCase where
  value : IntLiteral
  label : PlainName

/-- A `switch` on an integer. -/
structure SwitchTable where
  bits : Nat
  value : PlainName
  defaultLabel : PlainName
  cases : List TableCase

namespace TableCase

/-- The text of a case of integers with so many bits. -/
def print (bits : Nat) (c : TableCase) : Text :=
  (Ty.int bits).print ++ ' ' :: (c.value.text ++ ',' :: (" label %" ++ c.label.text))

/-- The tokens of a case. -/
def tokens (bits : Nat) (c : TableCase) : List Token :=
  [(Ty.int bits).token, word c.value.text, separator, word "label", word ('%' :: c.label.text)]

/-- The case that is meant. -/
def meant (c : TableCase) : SwitchCase := ⟨c.value.text, '%' :: c.label.text⟩

end TableCase

namespace SwitchTable

/-- The text before the bracket of a table. -/
def head (s : SwitchTable) : Text :=
  ' ' :: ' ' :: ("switch " ++ (Ty.int s.bits).print ++ " %" ++ s.value.text ++
    ',' :: (" label %" ++ s.defaultLabel.text ++ [' ']))

/-- The table on several lines, one for each case. -/
def lines (s : SwitchTable) : List Text :=
  (s.head ++ ['[']) :: (s.cases.map fun c => ("    " : Text) ++ c.print s.bits) ++ ["  ]".toList]

/-- The cases of a table with blanks before each of them and behind the last one. Each gap
    is one blank and so many more. -/
def inside (bits : Nat) (gap : Nat → Nat) : List TableCase → Text
  | [] => ' ' :: List.replicate (gap 0) ' '
  | c :: cs =>
    ' ' :: (List.replicate (gap 0) ' ' ++ c.print bits ++ inside bits (fun i => gap (i + 1)) cs)

/-- The table on a single line. -/
def onLine (s : SwitchTable) (gap : Nat → Nat) : Text :=
  s.head ++ '[' :: inside s.bits gap s.cases ++ [']']

/-- The node of a table on the line with the given number. -/
def node (s : SwitchTable) (number : Nat) : Node :=
  ⟨number, some ('%' :: s.value.text), false,
    .switch (Ty.int s.bits).print ('%' :: s.value.text) ('%' :: s.defaultLabel.text)
      (s.cases.map TableCase.meant)⟩

end SwitchTable

/-! ## Characters -/

/-- The character may stand in a table outside of its brackets. -/
def isTableChar (c : Char) : Bool := isNameChar c || c = ' ' || c = ',' || c = '%'

theorem isTableChar_of_isNameChar {c : Char} (h : isNameChar c = true) : isTableChar c = true := by
  simp [isTableChar, h]

theorem isNameChar_of_mem_print_int {bits : Nat} {c : Char} (hc : c ∈ (Ty.int bits).print) :
    isNameChar c = true := by
  rcases List.mem_cons.1 hc with rfl | hc
  · decide
  · exact isNameChar_of_isDigit (Nat.isDigit_of_mem_toDigits (by decide) (by decide) hc)

namespace TableCase

theorem isTableChar_of_mem {bits : Nat} {c : TableCase} {ch : Char} (h : ch ∈ c.print bits) :
    isTableChar ch = true := by
  have hword : " label %".toList.all isTableChar = true := by decide
  simp only [print, List.mem_append, List.mem_cons] at h
  rcases h with h | rfl | h | rfl | h | h
  · exact isTableChar_of_isNameChar (isNameChar_of_mem_print_int h)
  · decide
  · exact isTableChar_of_isNameChar (c.value.isNameChar_of_mem h)
  · decide
  · exact List.all_eq_true.1 hword ch h
  · exact isTableChar_of_isNameChar (c.label.plain ch h)

/-- A case begins and ends with characters that are not blank. -/
theorem trim_indented (bits : Nat) (c : TableCase) :
    Text.trim ("    " ++ c.print bits) = c.print bits := by
  have hblanks : "    ".toList.all isBlank = true := by decide
  apply Text.trim_indented (List.all_eq_true.1 hblanks)
  · rintro ch ⟨⟩
    decide
  · intro ch hch
    have hprint : c.print bits = (Ty.int bits).print ++ ' ' :: (c.value.text ++
        ',' :: " label %".toList) ++ c.label.text := by simp [print]
    rw [hprint, List.getLast?_append, List.getLast?_eq_some_getLast c.label.ne_nil,
      Option.some_or, ← List.getLast?_eq_some_getLast c.label.ne_nil] at hch
    exact not_isBlank_of_isNameChar (c.label.plain ch (List.mem_of_getLast? hch))

end TableCase

namespace SwitchTable

variable (s : SwitchTable)

theorem isTableChar_of_mem_head {c : Char} (h : c ∈ s.head) : isTableChar c = true := by
  have hwords : ("switch ".toList ++ " %".toList ++ " label %".toList).all isTableChar = true := by
    decide
  rw [List.all_eq_true] at hwords
  simp only [List.mem_append] at hwords
  simp only [head, List.mem_cons, List.mem_append, List.not_mem_nil, or_false] at h
  rcases h with rfl | rfl | (((h | h) | h) | h) | rfl | (h | h) | rfl
  · decide
  · decide
  · exact hwords c (Or.inl (Or.inl h))
  · exact isTableChar_of_isNameChar (isNameChar_of_mem_print_int h)
  · exact hwords c (Or.inl (Or.inr h))
  · exact isTableChar_of_isNameChar (s.value.plain c h)
  · decide
  · exact hwords c (Or.inr h)
  · exact isTableChar_of_isNameChar (s.defaultLabel.plain c h)
  · decide

theorem isTableChar_of_mem_inside {bits : Nat} {cs : List TableCase} {gap : Nat → Nat} {c : Char}
    (h : c ∈ inside bits gap cs) : isTableChar c = true := by
  induction cs generalizing gap with
  | nil =>
    obtain rfl : c = ' ' := by
      simp only [inside, List.mem_cons, List.mem_replicate] at h
      exact h.elim id And.right
    decide
  | cons t cs ih =>
    simp only [inside, List.mem_cons, List.mem_append, List.mem_replicate] at h
    rcases h with rfl | (⟨-, rfl⟩ | h) | h
    · decide
    · decide
    · exact TableCase.isTableChar_of_mem h
    · exact ih h

theorem count_eq_zero {t : Text} (ht : ∀ c ∈ t, isTableChar c = true) {x : Char}
    (hx : isTableChar x = false) : t.count x = 0 := by
  refine List.count_eq_zero_of_not_mem fun hmem => ?_
  rw [ht x hmem] at hx
  cases hx

/-! ## The lines of a table -/

theorem allBlank_head (rest : Text) : Text.allBlank (s.head ++ rest) = false := by
  simp only [Text.allBlank, List.all_eq_false]
  exact ⟨'s', by simp [head], by decide⟩

theorem startsWith_head (rest : Text) :
    ((s.head ++ rest).afterSpaces?.any (Text.startsWith · "switch ")) = true := by
  have hafter : (s.head ++ rest).afterSpaces? = some ("switch ".toList ++
      ((Ty.int s.bits).print ++ " %" ++ s.value.text ++ ',' :: (" label %" ++
        s.defaultLabel.text ++ ' ' :: rest))) := by
    simp [head, Text.afterSpaces?]
  rw [hafter, Option.any_some]
  exact Text.startsWith_append _ _

/-- The line of the bracket opens the table. -/
theorem opensTable_head : opensTable (s.head ++ ['[']) = true := by
  have hhead : ∀ c ∈ s.head, isTableChar c = true := fun c => s.isTableChar_of_mem_head
  rw [opensTable, s.startsWith_head]
  simp [List.count_append, count_eq_zero hhead (x := '[') (by decide),
    count_eq_zero hhead (x := ']') (by decide)]

/-- A table on a single line is not open. -/
theorem opensTable_onLine (gap : Nat → Nat) : opensTable (s.onLine gap) = false := by
  have hhead : ∀ c ∈ s.head, isTableChar c = true := fun c => s.isTableChar_of_mem_head
  have hinside : ∀ c ∈ inside s.bits gap s.cases, isTableChar c = true :=
    fun c => isTableChar_of_mem_inside
  have hcount : (s.onLine gap).count '[' = (s.onLine gap).count ']' := by
    simp [onLine, List.count_append, count_eq_zero hhead (x := '[') (by decide),
      count_eq_zero hhead (x := ']') (by decide), count_eq_zero hinside (x := '[') (by decide),
      count_eq_zero hinside (x := ']') (by decide)]
  simp [opensTable, hcount]

end SwitchTable

namespace Progress

/-- The lines of an open table are joined to the line of the `switch`, up to the line that
    ends the table. -/
theorem statements_inTable {line : LogicalLine} {before : List LogicalLine} {texts : List Text}
    (h : ∀ t ∈ texts, Text.allBlank t = false ∧ closesTable t = false) (p : Progress) (n : Nat)
    (htable : p.inTable = true) (hlines : p.lines = line :: before) :
    p.statements n texts = { p with
      lines :=
        ⟨line.text ++ texts.flatMap fun t => ' ' :: Text.trim t, line.number⟩ :: before } := by
  induction texts generalizing p line n with
  | nil =>
    obtain ⟨lines, stubs, function, inTable⟩ := p
    subst hlines
    simp [statements]
  | cons t texts ih =>
    obtain ⟨⟨hblank, hcloses⟩, htexts⟩ := List.forall_mem_cons.1 h
    have hstep : p.statementStep n t =
        { p with lines := extend line t :: before } := by
      simp [statementStep, hblank, hlines, htable, hcloses]
    have hlast : { p with lines := extend line t :: before }.lines = extend line t :: before := rfl
    have hrest := ih htexts { p with lines := extend line t :: before } (n + 1) htable hlast
    rw [statements, hstep, hrest]
    simp [extend]

end Progress

namespace SwitchTable

variable (s : SwitchTable)

/-- The cases one after the other, as they are joined. -/
theorem inside_eq_flatMap (bits : Nat) (cs : List TableCase) :
    inside bits (fun _ => 0) cs = cs.flatMap (fun c => ' ' :: c.print bits) ++ [' '] := by
  induction cs with
  | nil => rfl
  | cons c cs ih => simp [inside, ih]

/-- The line of a case neither is blank nor ends the table. -/
theorem shape_of_case {t : Text} (h : t ∈ s.cases.map fun c => ("    " : Text) ++ c.print s.bits) :
    Text.allBlank t = false ∧ closesTable t = false := by
  obtain ⟨c, -, rfl⟩ := List.mem_map.1 h
  have hblank : isBlank 'i' = false := by decide
  constructor
  · simp [TableCase.print, Ty.print, Text.allBlank, hblank]
  · simp [TableCase.print, Ty.print, closesTable, Text.afterSpaces?, Text.startsWith, Text.after?]

/-- The lines of a table are joined to the line that holds all of it. -/
theorem ofLines_lines (base : Nat) :
    (Outline.ofLines false base s.lines).result =
      .ok ⟨[⟨s.onLine fun _ => 0, base + 1⟩], []⟩ := by
  have hopen : Progress.start.statementStep (base + 1) (s.head ++ ['[']) =
      { Progress.start with lines := [⟨s.head ++ ['['], base + 1⟩], inTable := true } := by
    simp [Progress.statementStep, Progress.start, s.allBlank_head, s.opensTable_head]
  have htexts : (s.cases.map fun c => ("    " : Text) ++ c.print s.bits).flatMap
      (fun t => ' ' :: Text.trim t) = s.cases.flatMap fun c => ' ' :: c.print s.bits := by
    rw [List.flatMap_map]
    exact List.flatMap_congr fun c _ => by rw [c.trim_indented]
  have hblank : Text.allBlank [' ', ' ', ']'] = false := by decide
  have hcloses : closesTable [' ', ' ', ']'] = true := by decide
  have htrim : Text.trim [' ', ' ', ']'] = [']'] := by decide
  have hstep : Progress.start.statements (base + 1) s.lines =
      { Progress.start with lines := [⟨s.onLine fun _ => 0, base + 1⟩] } := by
    rw [lines, List.cons_append, Progress.statements, hopen, Progress.statements_append,
      Progress.statements_inTable (fun t => s.shape_of_case) _ _ rfl rfl, htexts]
    simp [Progress.statements, Progress.statementStep, Progress.extend, Progress.start, hblank,
      hcloses, htrim, onLine, inside_eq_flatMap]
  rw [Outline.ofLines_eager_eq_ok, hstep]
  exact ⟨rfl, rfl⟩

/-! ## The tokens of a table -/

theorem yields_label (name : PlainName) :
    Yields (',' :: (" label %" ++ name.text))
      [separator, word "label", word ('%' :: name.text)] := by
  have hlabel : Yields "label" [word "label"] :=
    Initializer.yields_keyword (w := "label") (c := 'l') rfl (by decide) (by decide) (by decide)
  simpa using (hlabel.append_blank name.yields_local).blank.comma

end SwitchTable

theorem TableCase.yields_print (bits : Nat) (c : TableCase) :
    Yields (c.print bits) (c.tokens bits) := by
  have hvalue := c.value.yields_text.append (Or.inr (Or.inr (Or.inl rfl)))
    (SwitchTable.yields_label c.label)
  exact (Ty.int bits).yields.append_blank hvalue

namespace SwitchTable

variable (s : SwitchTable)

/-- The cases have their tokens, whatever the gaps are. -/
theorem yields_inside (bits : Nat) (cs : List TableCase) (gap : Nat → Nat) :
    ∃ u, inside bits gap cs = ' ' :: u ∧ Yields u (cs.flatMap (TableCase.tokens bits)) := by
  induction cs generalizing gap with
  | nil => exact ⟨_, rfl, by simpa using yields_nil.blanks (gap 0)⟩
  | cons c cs ih =>
    obtain ⟨u, hu, hrest⟩ := ih fun i => gap (i + 1)
    refine ⟨_, rfl, ?_⟩
    rw [hu, List.append_assoc, List.flatMap_cons]
    exact ((c.yields_print bits).append_blank hrest).blanks (gap 0)

/-- The tokens of a table. -/
def tokens (s : SwitchTable) (gap : Nat → Nat) : List Token :=
  [word "switch", (Ty.int s.bits).token, word ('%' :: s.value.text), separator, word "label",
    word ('%' :: s.defaultLabel.text),
    group ('[' :: inside s.bits gap s.cases ++ [']']) .bracket
      (s.cases.flatMap (TableCase.tokens s.bits))]

theorem yields_onLine (gap : Nat → Nat) : Yields (s.onLine gap) (s.tokens gap) := by
  have hswitch : Yields "switch" [word "switch"] :=
    Initializer.yields_keyword (w := "switch") (c := 's') rfl (by decide) (by decide) (by decide)
  obtain ⟨u, hu, hinside⟩ := yields_inside s.bits s.cases gap
  have hcases : Yields (inside s.bits gap s.cases)
      (s.cases.flatMap (TableCase.tokens s.bits)) := hu ▸ hinside.blank
  have hgroup : Yields ('[' :: inside s.bits gap s.cases ++ [']']) _ :=
    hcases.group rfl (by decide) rfl (List.forall_mem_nil _)
  have hlabel := (yields_label s.defaultLabel).append_blank hgroup
  have hvalue := s.value.yields_local.append (Or.inr (Or.inr (Or.inl rfl))) hlabel
  have := (hswitch.append_blank ((Ty.int s.bits).yields.append_blank hvalue)).blanks 2
  simpa [onLine, head, tokens] using this

/-! ## The node of a table -/

/-- Cases are read from their tokens, five at a time. -/
theorem switchCases_tokens (line : Line) (bits : Nat) (cs : List TableCase) :
    Instruction.switchCases line (cs.flatMap (TableCase.tokens bits)) =
      pure (cs.map TableCase.meant) := by
  induction cs with
  | nil => rfl
  | cons c cs ih =>
    rw [List.flatMap_cons, TableCase.tokens]
    simp only [List.cons_append, List.nil_append]
    rw [Instruction.switchCases, if_pos (by rfl), ih]
    rfl

theorem result_switch {line : Line} {gap : Nat → Nat} (h : line.tokens = s.tokens gap) :
    (Instruction.switch line).result = .ok (s.node line.number) := by
  have hread : Instruction.switch line = do
      let cases ← Instruction.switchCases line (s.cases.flatMap (TableCase.tokens s.bits))
      note (Ty.int s.bits).print
      return ⟨line.number, some ('%' :: s.value.text), false,
        .switch (Ty.int s.bits).print ('%' :: s.value.text) ('%' :: s.defaultLabel.text)
          cases⟩ := by
    rw [Instruction.switch, h]
    rfl
  rw [hread, switchCases_tokens]
  rfl

theorem ofLine_switch {line : Line} {gap : Nat → Nat} (h : line.tokens = s.tokens gap)
    (hindent : line.indent = .statement) : Category.ofLine line = .ok .switch := by
  have hequals : ∀ t ∈ s.tokens gap, t.isWord ['='] = false := by
    simp [tokens, Ty.token, isWord, separator]
  have hassign : ∀ t ∈ beforeComment (s.tokens gap), t.isWord ['='] = false :=
    fun t ht => hequals t (List.takeWhile_subset _ ht)
  rw [Category.ofLine_eq_ok, h, hindent]
  simpa [Category.all, Category.suits, Category.indent?, Category.fits, Category.leads,
    Category.begins, Category.textAt, tokens, text, Ty.token] using hassign

/-- A table on a single line has its node. -/
theorem result_ofLogicalLine (gap : Nat → Nat) (number : Nat) :
    (Statement.ofLogicalLine ⟨s.onLine gap, number⟩).result = .ok (some (s.node number)) := by
  have hindent : Text.indent (s.onLine gap) = .statement := by
    simp [Text.indent, onLine, head, Indent.ofBlanks]
  have hline : Line.ofText (s.onLine gap) number =
      .ok ⟨(s.onLine gap).trim, number, .statement, s.tokens gap⟩ :=
    Statement.ofText_eq_ok (s.yields_onLine gap).tokenize hindent
  have hcategory : Category.ofLine ⟨(s.onLine gap).trim, number, .statement, s.tokens gap⟩ =
      .ok .switch := s.ofLine_switch rfl rfl
  rw [Statement.result_ofText hline, Statement.result_of_category hcategory (by simp),
    Statement.ofCategory, result_map, s.result_switch rfl]
  rfl

end SwitchTable

/-- **Switch tables survive the round trip.** A table of any length, each case on a line of
    its own, has one node: it stands on the first line and has the type, the value, the
    default label and the cases of the table, in order. The same is true of a table on a
    single line, with any number of blanks before its cases. -/
theorem Listing.ofLines_switch (s : SwitchTable) (base : Nat) :
    (Listing.ofLines false base s.lines).result = .ok ⟨[s.node (base + 1)], []⟩ ∧
      ∀ gap, (Listing.ofLines false base [s.onLine gap]).result =
        .ok ⟨[s.node (base + 1)], []⟩ := by
  constructor
  · rw [Listing.result_of_single (s.ofLines_lines base), s.result_ofLogicalLine]
    rfl
  · intro gap
    have hblank : Text.allBlank (s.onLine gap) = false := by
      rw [SwitchTable.onLine, List.append_assoc]
      exact s.allBlank_head _
    have houtline := Outline.ofLines_single hblank (s.opensTable_onLine gap) base
    rw [Listing.result_of_single houtline, s.result_ofLogicalLine]
    rfl

/-- How such a table is spelled. -/
example :
    let name (t : Text) (h : t ≠ [] ∧ t.all isNameChar = true) : PlainName :=
      ⟨t, h.1, List.all_eq_true.1 h.2⟩
    let s : SwitchTable := ⟨8, name "x.1" (by decide), name "end" (by decide),
      [⟨⟨true, "1", by decide, List.all_eq_true.1 (by decide)⟩, name "a" (by decide)⟩]⟩
    s.lines = ["  switch i8 %x.1, label %end [", "    i8 -1, label %a", "  ]"] ∧
      s.onLine (fun _ => 1) = "  switch i8 %x.1, label %end [  i8 -1, label %a  ]".toList := by
  decide

end LlvmAsm
