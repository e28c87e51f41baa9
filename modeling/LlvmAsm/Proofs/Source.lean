/-
  The lines of a source text, whatever their ends.

  * `LineEnd`: the three ways in which a line can end, and `IsLine`: a text that holds none
    of them;
  * `splitLines_intercalate`: lines that are joined in one of these ways are found again;
  * `lines_eq`: to exchange every carriage return and then every name of the extended type
    in the whole text, and to cut it at line feeds after that, gives the same lines;
  * `lines_stable`: lines that were read once are read again as they are.
-/
import LlvmAsm.Proofs.Replace
import LlvmAsm.Source

namespace LlvmAsm.Source

/-! ## Ends of lines -/

/-- The text holds no end of a line. -/
def IsLine (t : Text) : Prop := '\n' ∉ t ∧ '\r' ∉ t

/-- How a line ends. -/
inductive LineEnd where
  | lineFeed | both | carriageReturn
deriving DecidableEq, Repr

/-- The characters at the end of a line. -/
def LineEnd.text : LineEnd → Text
  | lineFeed => ['\n']
  | both => ['\r', '\n']
  | carriageReturn => ['\r']

theorem isLine_nil : IsLine [] := ⟨List.not_mem_nil, List.not_mem_nil⟩

theorem isLine_cons {c : Char} {t : Text} :
    IsLine (c :: t) ↔ (c ≠ '\n' ∧ c ≠ '\r') ∧ IsLine t := by
  simp only [IsLine, List.mem_cons, not_or, ne_eq, eq_comm (a := c)]
  exact and_and_and_comm

theorem IsLine.of_append_left {t u : Text} (h : IsLine (t ++ u)) : IsLine t :=
  ⟨fun ht => h.1 (List.mem_append_left u ht), fun ht => h.2 (List.mem_append_left u ht)⟩

theorem isLine_reverse {t : Text} : IsLine t.reverse ↔ IsLine t := by
  simp only [IsLine, List.mem_reverse]

/-! ## Cutting a text -/

section
variable {current t : Text} {done : List Text}

theorem splitLines_cons {c : Char} (hfeed : c ≠ '\n') (hreturn : c ≠ '\r') (t : Text) :
    splitLines current done (c :: t) = splitLines (c :: current) done t := by
  rw [splitLines]
  · exact if_neg (not_or.2 ⟨hfeed, hreturn⟩)
  · exact fun _ hc _ => hreturn hc

/-- A line that ends is complete. A carriage return ends a line by itself only if no line
    feed follows. -/
theorem splitLines_end (e : LineEnd) (h : e = .carriageReturn → t.head? ≠ some '\n') :
    splitLines current done (e.text ++ t) = splitLines [] (current.reverse :: done) t := by
  cases e with
  | lineFeed =>
    rw [LineEnd.text, List.singleton_append, splitLines]
    · exact if_pos (Or.inl rfl)
    · rintro _ ⟨⟩
  | both => rfl
  | carriageReturn =>
    rw [LineEnd.text, List.singleton_append, splitLines]
    · exact if_pos (Or.inr rfl)
    · rintro u - rfl
      exact h rfl rfl

theorem splitLines_append {line : Text} (h : IsLine line) (t : Text) :
    splitLines current done (line ++ t) = splitLines (line.reverse ++ current) done t := by
  induction line generalizing current with
  | nil => rfl
  | cons c line ih =>
    obtain ⟨⟨hfeed, hreturn⟩, hline⟩ := isLine_cons.1 h
    rw [List.cons_append, splitLines_cons hfeed hreturn, ih hline, List.reverse_cons,
      List.append_assoc]
    rfl

/-- **No line holds an end of a line.** -/
theorem isLine_of_mem_splitLines (hcurrent : IsLine current) (hdone : ∀ l ∈ done, IsLine l) :
    ∀ l ∈ splitLines current done t, IsLine l := by
  fun_induction splitLines current done t with
  | case1 current done =>
    intro l hl
    rcases List.mem_cons.1 (List.mem_reverse.1 hl) with rfl | hl
    · exact isLine_reverse.2 hcurrent
    · exact hdone l hl
  | case2 current done t ih =>
    exact ih isLine_nil (List.forall_mem_cons.2 ⟨isLine_reverse.2 hcurrent, hdone⟩)
  | case3 current done c t _ hend ih =>
    exact ih isLine_nil (List.forall_mem_cons.2 ⟨isLine_reverse.2 hcurrent, hdone⟩)
  | case4 current done c t _ hend ih =>
    exact ih (isLine_cons.2 ⟨not_or.1 hend, hcurrent⟩) hdone

theorem splitLines_ne_nil : splitLines current done t ≠ [] := by
  fun_induction splitLines current done t with
  | case1 => simp
  | case2 | case3 | case4 => assumption

/-- **Lines are found again**, in whichever way they end. Between a carriage return and the
    next line no line feed can come in, as there is none in that line. -/
theorem splitLines_intercalate (e : LineEnd) {line : Text} {more : List Text}
    (h : ∀ l ∈ line :: more, IsLine l) :
    splitLines [] done (List.intercalate e.text (line :: more)) = done.reverse ++ line :: more := by
  induction more generalizing line done with
  | nil =>
    have hline : splitLines [] done (line ++ []) = splitLines (line.reverse ++ []) done [] :=
      splitLines_append (h line List.mem_cons_self) []
    rw [List.intercalate_singleton, ← List.append_nil line, hline, splitLines]
    simp
  | cons next more ih =>
    obtain ⟨hline, hmore⟩ := List.forall_mem_cons.1 h
    have hhead : e = .carriageReturn →
        (List.intercalate e.text (next :: more)).head? ≠ some '\n' := by
      rintro rfl
      cases next with
      | nil =>
        cases more with
        | nil => simp
        | cons => simp [List.intercalate_cons_cons, LineEnd.text]
      | cons c next =>
        obtain ⟨⟨hfeed, -⟩, -⟩ := isLine_cons.1 (hmore (c :: next) List.mem_cons_self)
        cases more <;> simpa [List.intercalate_cons_cons] using hfeed
    rw [List.intercalate_cons_cons, List.append_assoc, splitLines_append hline,
      splitLines_end e hhead, ih hmore]
    simp

end

/-! ## The lines that are returned -/

/-- The name of the extended type. -/
def extendedName : Text := "x86_fp80"

/-- The text with the extended type read as `double`, on demand. -/
def exchanged (extendedAsDouble : Bool) (t : Text) : Text :=
  if extendedAsDouble then Text.replace t extendedName "double" else t

theorem lines_eq_map (extendedAsDouble : Bool) (t : Text) :
    lines extendedAsDouble t =
      (splitLines [] [] t).map fun line => Text.trimEnd (exchanged extendedAsDouble line) := rfl

theorem extendedName_ne_nil : extendedName ≠ [] := by decide

/-- What holds of every character of a text, as a test of the text. -/
theorem forall_mem_of_all {p : Char → Prop} [DecidablePred p] {t : Text}
    (h : t.all (fun c => decide (p c)) = true) : ∀ c ∈ t, p c :=
  fun c hc => of_decide_eq_true (List.all_eq_true.1 h c hc)

/-- No character of the new name is in the old one. -/
theorem extendedName_disjoint : ∀ c ∈ extendedName, c ∉ "double".toList :=
  forall_mem_of_all (by decide)

/-- A line as it is returned: nothing in it is left to do. -/
structure IsNormal (extendedAsDouble : Bool) (line : Text) : Prop where
  isLine : IsLine line
  last : ∀ c ∈ line.getLast?, isBlank c = false
  extended : extendedAsDouble = true → Text.hasPart line extendedName = false

section
variable {extendedAsDouble : Bool} {line : Text}

theorem isLine_exchanged (h : IsLine line) : IsLine (exchanged extendedAsDouble line) := by
  unfold exchanged
  split
  · have hnew : IsLine "double".toList := ⟨by decide, by decide⟩
    exact ⟨fun hc => (Text.mem_replace extendedName_ne_nil hc).elim h.1 hnew.1,
      fun hc => (Text.mem_replace extendedName_ne_nil hc).elim h.2 hnew.2⟩
  · exact h

theorem IsLine.isNormal (h : IsLine line) :
    IsNormal extendedAsDouble (Text.trimEnd (exchanged extendedAsDouble line)) := by
  obtain ⟨blanks, hblanks⟩ := Text.exists_trimEnd_append (exchanged extendedAsDouble line)
  have hline : IsLine (exchanged extendedAsDouble line) := isLine_exchanged h
  refine ⟨?_, Text.not_isBlank_getLast?_trimEnd _, fun hextended => ?_⟩
  · rw [hblanks] at hline
    exact hline.of_append_left
  · have hnone : Text.hasPart (exchanged extendedAsDouble line) extendedName = false := by
      rw [exchanged, if_pos hextended]
      exact Text.hasPart_replace extendedName_ne_nil (by decide) extendedName_disjoint line
    -- an occurrence in what is left would be one in the whole line
    refine eq_false_of_ne_true fun hpart => ?_
    rw [hblanks, Text.hasPart_append_left hpart blanks] at hnone
    cases hnone

theorem IsNormal.trimEnd_exchanged (h : IsNormal extendedAsDouble line) :
    Text.trimEnd (exchanged extendedAsDouble line) = line := by
  have hsame : exchanged extendedAsDouble line = line := by
    unfold exchanged
    split
    · exact Text.replace_eq_self (h.extended ‹_›) _
    · rfl
  rw [hsame, Text.trimEnd_eq_self h.last]

end

theorem isNormal_of_mem_lines {extendedAsDouble : Bool} {t line : Text}
    (h : line ∈ lines extendedAsDouble t) : IsNormal extendedAsDouble line := by
  obtain ⟨l, hl, rfl⟩ := List.mem_map.1 h
  exact (isLine_of_mem_splitLines isLine_nil (List.forall_mem_nil _) l hl).isNormal

/-- The lines of lines that are joined, whatever ends them. -/
theorem lines_intercalate (extendedAsDouble : Bool) (e : LineEnd) {ls : List Text} (hne : ls ≠ [])
    (h : ∀ l ∈ ls, IsLine l) :
    lines extendedAsDouble (List.intercalate e.text ls) =
      ls.map fun l => Text.trimEnd (exchanged extendedAsDouble l) := by
  obtain ⟨line, more, rfl⟩ := List.exists_cons_of_ne_nil hne
  rw [lines_eq_map, splitLines_intercalate e h]
  rfl

/-- **Normal lines are read as they are.** -/
theorem lines_of_isNormal {extendedAsDouble : Bool} {ls : List Text} (hne : ls ≠ [])
    (h : ∀ l ∈ ls, IsNormal extendedAsDouble l) :
    lines extendedAsDouble (List.intercalate ['\n'] ls) = ls := by
  have hlines := lines_intercalate extendedAsDouble .lineFeed hne fun l hl => (h l hl).isLine
  have hsame : ls.map (fun l => Text.trimEnd (exchanged extendedAsDouble l)) = ls :=
    (List.map_congr_left fun l hl => (h l hl).trimEnd_exchanged).trans ls.map_id'
  exact hlines.trans hsame

theorem lines_ne_nil (extendedAsDouble : Bool) (t : Text) : lines extendedAsDouble t ≠ [] := by
  rw [lines_eq_map]
  exact fun h => splitLines_ne_nil (List.map_eq_nil_iff.1 h)

/-! ## The whole text at once -/

/-- The text with a line feed at the end of every line: first for a carriage return and a
    line feed together, then for every carriage return that is left. -/
def unified (t : Text) : Text := Text.replace (Text.replace t "\r\n" "\n") "\r" "\n"

/-- The character is a line feed. -/
def isFeed (c : Char) : Bool := c = '\n'

theorem unified_cons_of_ne {c : Char} (h : c ≠ '\r') (t : Text) :
    unified (c :: t) = c :: unified t := by
  have hboth : Text.replace (c :: t) "\r\n" "\n" = c :: Text.replace t "\r\n" "\n" :=
    Text.replace_cons_of_ne h t ['\n'] "\n"
  rw [unified, hboth]
  exact Text.replace_cons_of_ne h _ [] "\n"

theorem unified_both (t : Text) : unified ('\r' :: '\n' :: t) = '\n' :: unified t := by
  have hne : ['\r', '\n'] ≠ [] := by decide
  have hboth : Text.replace ('\r' :: '\n' :: t) "\r\n" "\n" =
      '\n' :: Text.replace t "\r\n" "\n" := Text.replace_append hne ['\n'] t
  rw [unified, hboth]
  exact Text.replace_cons_of_ne (by decide) _ [] "\n"

theorem unified_return {t : Text} (h : t.head? ≠ some '\n') :
    unified ('\r' :: t) = '\n' :: unified t := by
  have hne : ['\r'] ≠ [] := by decide
  have hstarts : Text.startsWith ('\r' :: t) "\r\n" = false := by
    refine eq_false_of_ne_true fun hstarts => h ?_
    obtain ⟨rest, hrest⟩ := Text.startsWith_iff.1 hstarts
    obtain ⟨-, rfl⟩ := List.cons.inj hrest
    rfl
  rw [unified, Text.replace_cons_of_not hstarts]
  exact Text.replace_append hne ['\n'] _

/-- The lines are those between the line feeds of the unified text. The induction follows
    the cut; what is held of the first line stands before its rest. -/
theorem splitLines_eq (current : Text) (done : List Text) (t : Text) :
    splitLines current done t =
      done.reverse ++ (splitWhere isFeed (unified t)).modifyHead (current.reverse ++ ·) := by
  have hend (current : Text) (done : List Text) (u : Text) :
      done.reverse ++ (splitWhere isFeed ('\n' :: u)).modifyHead (current.reverse ++ ·) =
        (current.reverse :: done).reverse ++ (splitWhere isFeed u).modifyHead ([].reverse ++ ·) := by
    rw [splitWhere, if_pos (by decide)]
    cases splitWhere isFeed u <;> simp
  fun_induction splitLines current done t with
  | case1 current done => simp [unified, Text.replace_nil, splitWhere]
  | case2 current done t ih => rw [ih, unified_both, hend]
  | case3 current done c t hboth hline ih =>
    rw [ih]
    rcases hline with rfl | rfl
    · rw [unified_cons_of_ne (by decide), hend]
    · rw [unified_return, hend]
      intro hhead
      cases t with
      | nil => cases hhead
      | cons d t =>
        obtain rfl : d = '\n' := Option.some.inj hhead
        exact hboth t rfl rfl
  | case4 current done c t hboth hline ih =>
    obtain ⟨hfeed, hreturn⟩ := not_or.1 hline
    have hnot : isFeed c = false := decide_eq_false hfeed
    rw [ih, unified_cons_of_ne hreturn, splitWhere, hnot]
    cases hpieces : splitWhere isFeed (unified t) with
    | nil => exact absurd hpieces (splitWhere_ne_nil _ _)
    | cons piece pieces => simp

/-- Line by line or in the whole text, the exchange is the same: no line feed is in the
    name of the type. -/
theorem splitWhere_exchanged (extendedAsDouble : Bool) (t : Text) :
    splitWhere isFeed (exchanged extendedAsDouble t) =
      (splitWhere isFeed t).map (exchanged extendedAsDouble) := by
  cases extendedAsDouble with
  | false => exact (List.map_id' _).symm
  | true =>
    exact Text.splitWhere_replace extendedName_ne_nil (forall_mem_of_all (by decide))
      (forall_mem_of_all (by decide)) t

/-- **The lines as three exchanges**, a cut at line feeds and a trim at the end. -/
theorem lines_eq (extendedAsDouble : Bool) (t : Text) :
    lines extendedAsDouble t =
      (splitWhere isFeed (exchanged extendedAsDouble (unified t))).map Text.trimEnd := by
  have hsplit : splitLines [] [] t = splitWhere isFeed (unified t) := by
    rw [splitLines_eq]
    cases splitWhere isFeed (unified t) <;> rfl
  rw [lines_eq_map, hsplit, splitWhere_exchanged, List.map_map]
  rfl

/-- **Normalization is stable**, and does not depend on how lines end. It is made of three
    exchanges in the whole text, a cut at line feeds and a trim; its lines hold no end of a
    line, no blank at the end and, on demand, no extended type; they are read again as they
    are; and lines may be joined in any of the three ways. -/
theorem lines_stable (extendedAsDouble : Bool) (t : Text) :
    lines extendedAsDouble t =
      (splitWhere isFeed (exchanged extendedAsDouble (unified t))).map Text.trimEnd ∧
    (∀ l ∈ lines extendedAsDouble t, '\r' ∉ l ∧ '\n' ∉ l ∧ ∀ c ∈ l.getLast?, isBlank c = false) ∧
    lines extendedAsDouble (List.intercalate ['\n'] (lines extendedAsDouble t)) =
      lines extendedAsDouble t ∧
    (∀ (ls : List { l : Text // IsLine l }) (e : LineEnd),
      lines extendedAsDouble (List.intercalate e.text (ls.map Subtype.val)) =
        lines extendedAsDouble (List.intercalate ['\n'] (ls.map Subtype.val))) ∧
    ∀ l ∈ lines true t, Text.hasPart l "x86_fp80" = false := by
  refine ⟨lines_eq extendedAsDouble t, fun l hl => ?_, ?_, fun ls e => ?_, fun l hl => ?_⟩
  · have hnormal := isNormal_of_mem_lines hl
    exact ⟨hnormal.isLine.2, hnormal.isLine.1, hnormal.last⟩
  · exact lines_of_isNormal (lines_ne_nil _ t) fun l hl => isNormal_of_mem_lines hl
  · cases ls with
    | nil => rfl
    | cons l ls =>
      have hls : ∀ t ∈ (l :: ls).map Subtype.val, IsLine t := by
        intro t ht
        obtain ⟨l', -, rfl⟩ := List.mem_map.1 ht
        exact l'.2
      have hne : (l :: ls).map Subtype.val ≠ [] := List.cons_ne_nil _ _
      have hfeed := lines_intercalate extendedAsDouble .lineFeed hne hls
      exact (lines_intercalate extendedAsDouble e hne hls).trans hfeed.symm
  · exact (isNormal_of_mem_lines hl).extended rfl

end LlvmAsm.Source
