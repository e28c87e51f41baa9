/-
  Blocks and the branches to them.

  A block begins with its name and a colon, or with the mark `; <label>:N` if it has no name,
  and a branch refers to it by its name behind a sigil. The label of the line is the name that
  branches refer to, unless that is in quotes (`Block.label_iff`): the second quote ends the
  first token, so the colon is not in it, and the line is no statement at all.

  * `Symbol.yields_text`: a reference is a token, with quotes or not;
  * `Block.exists_tokenize_mark`: the tokens of the line, with a comment or without;
  * `Block.ofLine_mark` and `Block.result_label`: its category, and its label;
  * `Block.isLabelled_predecessors`: the comment with the predecessors does not matter.
-/
import LlvmAsm.Proofs.Body
import LlvmAsm.Proofs.Parameter
import LlvmAsm.Proofs.Token.Render
import LlvmAsm.Proofs.Value

namespace LlvmAsm

open Reading Token

/-! ## Spellings -/

/-- A block of a function, by its name or by its number. -/
inductive Block where
  | named (name : SymbolName)
  | numbered (n : Nat)

/-- A number as a name. -/
def PlainName.ofNat (n : Nat) : PlainName :=
  ⟨Text.ofNat n, Text.ofNat_ne_nil n, fun _ hc => isNameChar_of_isDigit
    (Nat.isDigit_of_mem_toDigits (by decide) (by decide) hc)⟩

/-- What stands behind the mark of a block: nothing, or a comment after blanks. -/
inductive Remark where
  | none
  | comment (blanks : Nat) (c : Text)

/-- The text of a remark. -/
def Remark.text : Remark → Text
  | none => []
  | comment blanks c => ' ' :: List.replicate blanks ' ' ++ ';' :: ' ' :: c

/-- The enclosers and quotes of the comment fit together. -/
def Remark.InOrder : Remark → Prop
  | none => True
  | comment _ c => ∃ ps, Pieces c ps

namespace Block

/-- The name that branches refer to. -/
def name : Block → SymbolName
  | named name => name
  | numbered n => .plain (.ofNat n)

/-- How branches refer to the block. -/
def reference (b : Block) : Text := '%' :: b.name.text

/-- How the block begins. -/
def mark : Block → Text
  | named name => name.text ++ [':']
  | numbered n => ';' :: ' ' :: "<label>" ++ ':' :: Text.ofNat n

/-- The tokens of the mark. -/
def markTokens : Block → List Token
  | named (.plain name) => [word (name.text ++ [':'])]
  | named (.quoted content) => [word ('"' :: content.text ++ ['"']), word [':']]
  | numbered n => [semicolon, group "<label>" .angle [word "label"], word (':' :: Text.ofNat n)]

/-- The name of the block is in quotes. -/
def IsQuoted : Block → Prop
  | named (.plain _) | numbered _ => False
  | named (.quoted _) => True

/-- The line of the block has a label: its name is not in quotes, and a comment behind the
    semicolon of a mark is in order. -/
structure IsLabelled (b : Block) (r : Remark) : Prop where
  unquoted : ¬ b.IsQuoted
  order : ∀ n, b = numbered n → r.InOrder

end Block

/-! ## References -/

/-- A symbol is a token, with quotes or not. -/
theorem Symbol.yields_text (s : Symbol) : Yields s.text [word s.text] := by
  obtain ⟨isLocal, plain | quoted⟩ := s
  · cases isLocal with
    | true => exact plain.yields_local
    | false => exact plain.yields_symbol
  · have hapart : ∀ c, c ∉ ['"', '*', '('] →
        (word ([c] ++ '"' :: quoted.text ++ ['"'])).Apart := by
      intro c hc
      have hlast : ([c] ++ '"' :: quoted.text ++ ['"']).getLast? = some '"' :=
        List.getLast?_concat
      refine apart_word (c := c) rfl hc ?_
      rw [TypeText.bare_of_getLast? (by rw [hlast]; decide), hlast]
      decide
    have hpieces : ∀ c, [c] ∈ sigils → Pieces ([c] ++ '"' :: quoted.text ++ ['"'])
        [word ([c] ++ '"' :: quoted.text ++ ['"'])] := by
      intro c hc
      simpa using tight_quote hc quoted.no_quote [] [] pieces_nil
    cases isLocal with
    | true => exact yields_of_apart (hpieces '%' (by decide)) (hapart '%' (by decide))
    | false => exact yields_of_apart (hpieces '@' (by decide)) (hapart '@' (by decide))

/-- The text of a branch to a block. -/
def Block.branchText (b : Block) : Text :=
  ' ' :: ' ' :: ("br" ++ ' ' :: ("label" ++ ' ' :: b.reference))

/-- A branch has the reference of its block. -/
theorem Block.result_branch (b : Block) (number : Nat) :
    (Statement.ofLogicalLine ⟨b.branchText, number⟩).result =
      .ok (some ⟨number, none, false, .branch (.unconditional b.reference)⟩) := by
  have hbr : Yields "br" [word "br"] :=
    Initializer.yields_keyword (c := 'b') rfl (by decide) (by decide) (by decide)
  have hlabel : Yields "label" [word "label"] :=
    Initializer.yields_keyword (c := 'l') rfl (by decide) (by decide) (by decide)
  have hyields := (hbr.append_blank (hlabel.append_blank
    (Symbol.yields_text ⟨true, b.name⟩))).blank.blank
  have hline : Line.ofText b.branchText number =
      .ok ⟨b.branchText.trim, number, .statement,
        [word "br", word "label", word b.reference]⟩ :=
    Statement.ofText_eq_ok hyields.tokenize rfl
  have hcategory : Category.ofLine ⟨b.branchText.trim, number, .statement,
      [word "br", word "label", word b.reference]⟩ = .ok .branch := by
    rw [Category.ofLine_eq_ok]
    simp [Category.all, Category.suits, Category.indent?, Category.fits, Category.leads,
      Category.begins, Category.textAt, beforeComment, isComment, isWord, Token.text, reference]
  rw [Statement.result_ofText hline, Statement.result_of_category hcategory (by decide)]
  rfl

/-! ## The line of a block -/

/-- A word between blanks is the first word. -/
theorem Text.words_cons_append {w : Text} (hne : w ≠ []) (hw : ∀ c ∈ w, isBlank c = false)
    (u : Text) : Text.words (' ' :: w ++ ' ' :: u) = w :: Text.words u := by
  have hblank : isBlank ' ' = true := by decide
  have hsplit : splitWhere isBlank (' ' :: w ++ ' ' :: u) = [] :: w :: splitWhere isBlank u := by
    rw [List.cons_append, splitWhere, if_pos hblank, splitWhere_append_cons hw hblank]
  rw [Text.words, hsplit]
  simp [Text.words, hne]

theorem pieces_colon : Pieces [':'] [word [':']] :=
  pieces_word (by simp) (List.forall_mem_singleton.2 (by decide))

namespace Block

variable (b : Block) (r : Remark)

theorem mark_append_comment (blanks : Nat) (c : Text) :
    b.mark ++ (Remark.comment blanks c).text =
      b.mark ++ ' ' :: List.replicate blanks ' ' ++ ';' :: ' ' :: c := by
  simp [Remark.text]

theorem pieces_mark : Pieces b.mark b.markTokens := by
  match b with
  | named (.plain name) =>
    refine pieces_word (by simp [mark]) (List.forall_mem_append.2 ⟨fun c hc => ?_, ?_⟩)
    · exact plainChar_of_isNameChar (name.plain c hc)
    · exact List.forall_mem_singleton.2 (by decide)
  | named (.quoted content) =>
    have hquote : Tight ([] ++ '"' :: content.text ++ ['"']) _ :=
      tight_quote (by decide) content.no_quote
    exact hquote [':'] _ pieces_colon
  | numbered n =>
    have hlabel : Pieces "label" [word "label"] :=
      pieces_word (by simp) (plainChars_of_all (by decide))
    have hnumber : Pieces (':' :: Text.ofNat n) [word (':' :: Text.ofNat n)] := by
      refine pieces_word (by simp) (List.forall_mem_cons.2 ⟨by decide, fun c hc => ?_⟩)
      exact plainChar_of_isNameChar ((PlainName.ofNat n).plain c hc)
    have hgroup : Pieces ('<' :: "label" ++ '>' :: ':' :: Text.ofNat n)
        [group ('<' :: "label" ++ ['>']) .angle [word "label"], word (':' :: Text.ofNat n)] :=
      hlabel.group rfl rfl hnumber
    exact pieces_semicolon.append (Or.inl rfl) ((pieces_blank_iff (Or.inl rfl)).2 hgroup)

theorem arrange_markTokens : arrange b.markTokens = b.markTokens := by
  match b with
  | named (.plain name) =>
    rw [markTokens, arrange, List.foldl_cons, place_nil]
    rfl
  | named (.quoted content) =>
    have hcolon : (word [':']).Apart := apart_word (c := ':') rfl (by decide) (by decide)
    rw [markTokens, arrange, List.foldl_cons, place_nil, List.foldl_cons, hcolon.place]
    rfl
  | numbered n =>
    have hgroup : (group "<label>" .angle [word "label"]).Apart :=
      ⟨by decide, ⟨'<', List.mem_cons_self, by decide⟩, by decide, by rintro _ ⟨⟩⟩
    have hnumber : (word (':' :: Text.ofNat n)).Apart := by
      refine apart_word_of_not_mem (c := ':') rfl (by decide) ?_
      exact List.not_mem_cons_of_ne_of_not_mem (by decide)
        ((PlainName.ofNat n).not_mem_text (by decide))
    rw [markTokens, arrange, List.foldl_cons, place_nil, List.foldl_cons, hgroup.place,
      List.foldl_cons, hnumber.place]
    rfl

theorem settled_markTokens : ∀ t ∈ b.markTokens, t.Settled := by
  match b with
  | named (.plain name) =>
    refine List.forall_mem_singleton.2 (settled_iff.2 fun heq => ?_)
    have hlast := congrArg (List.getLast? ∘ text) heq
    simp [text] at hlast
  | named (.quoted content) => simp [markTokens, Settled, isWord]
  | numbered n => simp [markTokens, Settled, isWord]

/-- The blanks before a comment, and what is before them. -/
theorem detached_mark (blanks : Nat) :
    Detached (b.mark ++ ' ' :: List.replicate blanks ' ') b.markTokens :=
  b.pieces_mark.detached_blanks fun _ hd => Or.inl (List.eq_of_mem_replicate hd)

/-- The comment behind a name begins at its semicolon. -/
theorem cutComment?_mark (name : SymbolName) (blanks : Nat) (c : Text) :
    cutComment? ((named name).mark ++ ' ' :: List.replicate blanks ' ' ++ ';' :: c) =
      some ((named name).mark ++ ' ' :: List.replicate blanks ' ', c) := by
  cases name with
  | plain name =>
    have hname : ';' ∉ name.text := name.not_mem_text (by decide)
    have hsemi : ';' ∉ (named (.plain name)).mark ++ ' ' :: List.replicate blanks ' ' := by
      simp [mark, SymbolName.text, hname, List.mem_replicate]
    exact ((named (.plain name)).detached_mark blanks).cutComment? hsemi c
  | quoted content =>
    have hcolon : Detached ([':'] ++ ' ' :: List.replicate blanks ' ') _ :=
      pieces_colon.detached_blanks fun _ hd => Or.inl (List.eq_of_mem_replicate hd)
    have hrest := hcolon.cutComment? (by simp [List.mem_replicate]) c
    have hsplit : (named (.quoted content)).mark ++ ' ' :: List.replicate blanks ' ' ++ ';' :: c =
        '"' :: content.text ++ '"' :: ([':'] ++ ' ' :: List.replicate blanks ' ' ++ ';' :: c) := by
      simp [mark, SymbolName.text]
    rw [hsplit, cutComment?_quote content.no_quote, hrest]
    simp [mark, SymbolName.text]

/-- The line of a block begins with the tokens of its mark. -/
theorem exists_tokenize_mark (h : ∀ n, b = numbered n → r.InOrder) :
    ∃ tail, tokenize (b.mark ++ r.text) = .ok (b.markTokens ++ tail) := by
  have hsettled : ∀ t ∈ arrange b.markTokens, t.Settled := by
    rw [b.arrange_markTokens]
    exact b.settled_markTokens
  cases r with
  | none =>
    refine ⟨[], ?_⟩
    rw [Remark.text, List.append_nil, List.append_nil, b.pieces_mark.tokenize,
      b.arrange_markTokens]
  | comment blanks c =>
    have hblank : ∀ d ∈ (' ' :: c).head?, Scan.Delimits d := by
      rintro _ ⟨⟩
      exact Or.inl rfl
    have hdetached := b.detached_mark blanks
    rw [mark_append_comment, ← b.arrange_markTokens]
    cases b with
    | named name =>
      obtain ⟨tail, -, htail⟩ :=
        hdetached.tokenize_append (cutComment?_mark name blanks _) hsettled hblank
      exact ⟨tail, htail⟩
    | numbered n =>
      obtain ⟨ps, hps⟩ := h n rfl
      obtain ⟨tail, -, htail⟩ := hdetached.tokenize_append_of_order hsettled hblank
        ⟨ps, (pieces_blank_iff (Or.inl rfl)).2 hps⟩
      exact ⟨tail, htail⟩

theorem indent_mark : Text.indent (b.mark ++ r.text) = .topLevel := by
  match b with
  | named (.plain name) =>
    obtain ⟨c, cs, hname⟩ := List.exists_cons_of_ne_nil name.ne_nil
    have hc : c ≠ ' ' := by
      rintro rfl
      exact name.not_mem_text (by decide) (hname ▸ List.mem_cons_self)
    simp [Text.indent, mark, SymbolName.text, hname, hc, Indent.ofBlanks]
  | named (.quoted content) => rfl
  | numbered n => rfl

/-! ## Its category and its label -/

section
variable {line : Line} {tail : List Token}

/-- The line of a block is one of a label, unless its name is in quotes. -/
theorem ofLine_mark (hquoted : ¬ b.IsQuoted) (hindent : line.indent = .topLevel)
    (htokens : line.tokens = b.markTokens ++ tail) :
    Category.ofLine line = .ok .label := by
  have hlabel : Category.suits .topLevel line.tokens .label = true := by
    match b with
    | named (.plain name) =>
      have hend := Text.endsWith_append name.text [':']
      rw [htokens, Category.suits, Category.fits]
      simpa [Category.indent?, markTokens, isGroup, text] using Or.inl hend
    | named (.quoted content) => exact absurd trivial hquoted
    | numbered n =>
      rw [htokens, Category.suits, Category.fits]
      simp [Category.indent?, markTokens, Category.textAt, text]
  rw [Category.ofLine_eq_ok, hindent, Category.find?_all_topLevel, List.find?_cons_of_pos hlabel]

/-- A line that begins with a name in quotes and a colon is no statement. -/
theorem ofLine_mark_quoted {content : QuoteFree} (hindent : line.indent = .topLevel)
    (htokens : line.tokens = (named (.quoted content)).markTokens ++ tail) :
    Category.ofLine line = .error ⟨line.number, .unknownStatement line.text⟩ := by
  have hend : Text.endsWith ('"' :: (content.text ++ ['"'])) [':'] = false := by
    rw [Bool.eq_false_iff]
    intro hend
    obtain ⟨u, hu⟩ := Text.endsWith_iff.1 hend
    have hlast := congrArg List.getLast? hu
    rw [← List.cons_append, List.getLast?_concat, List.getLast?_concat] at hlast
    cases hlast
  rw [Category.ofLine, hindent, Category.find?_all_topLevel, htokens]
  simp [Category.suits, Category.indent?, Category.fits, Category.begins, Category.leads,
    Category.textAt, markTokens, text, isGroup, hend]

/-- The label is the name that branches refer to. -/
theorem result_label (hquoted : ¬ b.IsQuoted)
    (htokens : line.tokens = b.markTokens ++ tail) :
    (Definition.label line).result = .ok ⟨line.number, some b.reference, false, .label⟩ := by
  have hname : Definition.labelName line = pure b.name.text := by
    match b with
    | named (.plain name) =>
      have hend := Text.endsWith_append name.text [':']
      rw [Definition.labelName, htokens]
      simp [tokenAt, markTokens, isGroup, text, hend, Block.name, SymbolName.text]
    | named (.quoted content) => exact absurd trivial hquoted
    | numbered n =>
      have hdigits : (Text.ofNat n).dropWhile (· = ':') = Text.ofNat n := by
        refine dropWhile_eq_self fun c hc => decide_eq_false ?_
        rintro rfl
        exact (PlainName.ofNat n).not_mem_text (by decide) (List.mem_of_head? hc)
      have hend : Text.endsWith [';'] [':'] = false := rfl
      rw [Definition.labelName, htokens]
      simp [tokenAt, textAt, markTokens, isGroup, text, hend, hdigits, Block.name,
        SymbolName.text, PlainName.ofNat]
  rw [Definition.label, hname]
  rfl

end

/-- A block without a name in quotes has the label that branches refer to. -/
theorem result_mark (h : b.IsLabelled r) (number : Nat) :
    (Statement.ofLogicalLine ⟨b.mark ++ r.text, number⟩).result =
      .ok (some ⟨number, some b.reference, false, .label⟩) := by
  obtain ⟨tail, htail⟩ := b.exists_tokenize_mark r h.order
  have hline : Line.ofText (b.mark ++ r.text) number =
      .ok ⟨(b.mark ++ r.text).trim, number, .topLevel, b.markTokens ++ tail⟩ :=
    Statement.ofText_eq_ok htail (b.indent_mark r)
  have hcategory : Category.ofLine ⟨(b.mark ++ r.text).trim, number, .topLevel,
      b.markTokens ++ tail⟩ = .ok .label := b.ofLine_mark h.unquoted rfl rfl
  have hlabel : (Definition.label ⟨(b.mark ++ r.text).trim, number, .topLevel,
      b.markTokens ++ tail⟩).result = .ok ⟨number, some b.reference, false, .label⟩ :=
    b.result_label h.unquoted rfl
  rw [Statement.result_ofText hline, Statement.result_of_category hcategory (by decide),
    Statement.ofCategory, result_map, hlabel]
  rfl

/-- A line that begins with a name in quotes and a colon has no meaning. -/
theorem result_mark_quoted (content : QuoteFree) (number : Nat) :
    (Statement.ofLogicalLine ⟨(named (.quoted content)).mark ++ r.text, number⟩).result =
      .error ⟨number, .unknownStatement ((named (.quoted content)).mark ++ r.text).trim⟩ := by
  obtain ⟨tail, htail⟩ := (named (.quoted content)).exists_tokenize_mark r (by rintro _ ⟨⟩)
  have hline : Line.ofText ((named (.quoted content)).mark ++ r.text) number = .ok _ :=
    Statement.ofText_eq_ok htail ((named (.quoted content)).indent_mark r)
  rw [Statement.result_ofText hline, Statement.ofLine, liftM_eq,
    result_bind_error (by rw [result_ofExcept, ofLine_mark_quoted rfl rfl])]

/-- A mark without a name is discarded with a comment that is not in order: the words behind
    its semicolon are cut at blanks only. -/
theorem result_mark_of_disorder {n blanks : Nat} {c : Text} (h : ¬ ∃ ps, Pieces c ps)
    (number : Nat) :
    (Statement.ofLogicalLine
      ⟨(numbered n).mark ++ (Remark.comment blanks c).text, number⟩).result = .ok none := by
  have hblank : ∀ d ∈ (' ' :: c).head?, Scan.Delimits d := by
    rintro _ ⟨⟩
    exact Or.inl rfl
  have horder : ¬ ∃ ps, Pieces ((numbered n).mark ++ (Remark.comment blanks c).text) ps := by
    intro hps
    rw [mark_append_comment] at hps
    obtain ⟨us, hus⟩ := exists_pieces_of_semicolon hblank
      (((numbered n).detached_mark blanks).rest hps)
    exact h ⟨us, (pieces_blank_iff (Or.inl rfl)).1 hus⟩
  have hfirst : ∀ d ∈ "<label>" ++ ':' :: Text.ofNat n, isBlank d = false := by
    have hmark : ("<label>".toList ++ [':']).all (!isBlank ·) = true := by decide
    intro d hd
    rw [List.append_cons] at hd
    rcases List.mem_append.1 hd with hd | hd
    · simpa using List.all_eq_true.1 hmark d hd
    · exact not_isBlank_of_isNameChar ((PlainName.ofNat n).plain d hd)
  have hcut : cutComment? ((numbered n).mark ++ (Remark.comment blanks c).text) =
      some ([], ' ' :: ("<label>" ++ ':' :: Text.ofNat n) ++ ' ' ::
        (List.replicate blanks ' ' ++ ';' :: ' ' :: c)) := by
    simp [mark, Remark.text, cutComment?, cutCommentFrom?]
  obtain ⟨more, htokens⟩ : ∃ more, tokenize ((numbered n).mark ++ (Remark.comment blanks c).text) =
      .ok (semicolon :: word ("<label>" ++ ':' :: Text.ofNat n) :: more) := by
    rw [tokenize_of_comment horder hcut pieces_nil, commentTokens,
      Text.words_cons_append (by simp) hfirst]
    exact ⟨_, rfl⟩
  have hline : Line.ofText ((numbered n).mark ++ (Remark.comment blanks c).text) number = .ok _ :=
    Statement.ofText_eq_ok htokens ((numbered n).indent_mark _)
  have hdiscard : Category.ofLine ⟨((numbered n).mark ++ (Remark.comment blanks c).text).trim,
      number, .topLevel, semicolon :: word ("<label>" ++ ':' :: Text.ofNat n) :: more⟩ =
      .ok .discard := by
    refine (Category.ofLine_comment_iff (Or.inl rfl) rfl (by rintro ⟨⟩)).2 ⟨rfl, ?_⟩
    simp [Category.Mistaken, Category.textAt, text]
  rw [Statement.result_ofText hline, Statement.result_of_category hdiscard (by decide)]
  rfl

/-- **A block has the name that branches refer to**, from its name or from its number, unless
    the name is in quotes. A comment behind the mark does not matter, except that behind a
    number its enclosers and quotes have to fit together. -/
theorem label_iff (number : Nat) :
    (Statement.ofLogicalLine ⟨b.branchText, number⟩).result =
        .ok (some ⟨number, none, false, .branch (.unconditional b.reference)⟩) ∧
      ((Statement.ofLogicalLine ⟨b.mark ++ r.text, number⟩).result =
          .ok (some ⟨number, some b.reference, false, .label⟩) ↔ b.IsLabelled r) := by
  refine ⟨b.result_branch number, fun h => ⟨fun hquoted => ?_, ?_⟩,
    fun h => b.result_mark r h number⟩
  · match b with
    | named (.quoted content) =>
      rw [result_mark_quoted] at h
      cases h
  · rintro n rfl
    by_contra hnot
    cases r with
    | none => exact hnot trivial
    | comment blanks c =>
      rw [result_mark_of_disorder hnot] at h
      cases h

/-- The quoted name is kept by the branch, and its definition has no meaning. -/
theorem unknown_of_quoted_name :
    let b := named (.quoted ⟨"odd name", by decide⟩)
    b.mark = "\"odd name\":".toList ∧ b.branchText = "  br label %\"odd name\"".toList ∧
      (Statement.ofLogicalLine ⟨b.branchText, 1⟩).result =
        .ok (some ⟨1, none, false, .branch (.unconditional "%\"odd name\"")⟩) ∧
      (Statement.ofLogicalLine ⟨b.mark, 1⟩).result =
        .error ⟨1, .unknownStatement "\"odd name\":"⟩ := by
  intro b
  have hmark := result_mark_quoted .none ⟨"odd name", by decide⟩ 1
  rw [Remark.text, List.append_nil] at hmark
  refine ⟨by decide, by decide, b.result_branch 1, hmark.trans ?_⟩
  decide

end Block

/-! ## Predecessors -/

/-- The comment with the predecessors of a block. -/
def Remark.predecessors (blanks : Nat) (bs : List Block) : Remark :=
  .comment blanks ("preds" ++ ' ' :: ("=" ++ ' ' :: commaList (bs.map Block.reference)))

/-- References are in order, so predecessors do not disturb the label of a block. -/
theorem Block.isLabelled_predecessors (b : Block) (hquoted : ¬ b.IsQuoted) (blanks : Nat)
    (bs : List Block) : b.IsLabelled (.predecessors blanks bs) := by
  have hpreds : Yields "preds" [word "preds"] :=
    Initializer.yields_keyword (c := 'p') rfl (by decide) (by decide) (by decide)
  have hequals : Yields "=" [word "="] :=
    Initializer.yields_keyword (c := '=') rfl (by decide) (by decide) (by decide)
  have hreferences : List.Forall₂ (fun t a => Yields t [a]) (bs.map Block.reference)
      (bs.map fun b => word b.reference) := by
    rw [List.forall₂_map_left_iff, List.forall₂_map_right_iff]
    exact List.forall₂_same.2 fun b _ => Symbol.yields_text ⟨true, b.name⟩
  have hyields := hpreds.append_blank (hequals.append_blank (yields_intercalate 1 hreferences))
  obtain ⟨ps, hps, -⟩ := hyields.exists_pieces
  exact ⟨hquoted, fun _ _ => ⟨ps, hps⟩⟩

end LlvmAsm
