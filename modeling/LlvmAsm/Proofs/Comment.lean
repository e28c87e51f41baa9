/-
  Lines that are comments.

  A line whose first character, blanks aside, is a semicolon always has tokens. It
  is ignored iff the first token is the semicolon itself and the words of the comment
  are not mistaken for a statement: `comment_discarded_iff`. The rules for statements
  look at the second token, which is a word of the comment, as well as at the first
  one.

  * `tokenize_comment_line`: the first token is a word that begins with the semicolon
    or with a blank that does not separate tokens;
  * `Category.Mistaken` is the class of comments that another rule takes;
  * `Listing.ofLines_comment_iff`: a comment is ignored iff its line is discarded.
-/
import LlvmAsm.Proofs.Deferral
import LlvmAsm.Proofs.Listing
import LlvmAsm.Proofs.Token.Comment

namespace LlvmAsm

open Reading Token

/-! ## The tokens of a comment -/

section
variable {blanks : Text} {c : Text} {pieces : List Token} {b x : Char}

/-- The characters that the first token of a comment line begins with: the semicolon,
    or a blank before it. -/
def LeadsComment (x : Char) : Prop := x = ';' ∨ isBlank x = true

theorem plainChar_of_isBlank (hb : isBlank b = true) (hspace : ¬ (b = ' ' ∨ b = '\t')) :
    PlainChar b := by
  rw [not_or] at hspace
  exact plainChar_of_class (p := fun d => isBlank d && d ≠ ' ' && d ≠ '\t') (by decide)
    (by simp [hb, hspace])

theorem LeadsComment.ne {y : Char} (h : LeadsComment x) (hy : y ≠ ';')
    (hblank : isBlank y = false) : x ≠ y := by
  rintro rfl
  rcases h with h | h
  · exact hy h
  · rw [hblank] at h
    cases h

theorem LeadsComment.settled (h : LeadsComment x) (w : Text) : (word (x :: w)).Settled :=
  settled_iff.2 fun heq => by
    cases heq
    exact h.ne (by decide) (by decide) rfl

/-- Blanks separate tokens, or the first one that does not begins a word. -/
theorem pieces_of_blanks {u : Text} (hblanks : ∀ d ∈ blanks, isBlank d = true)
    (h : Pieces (blanks ++ u) pieces) :
    Pieces u pieces ∨ ∃ x w rest, isBlank x = true ∧ pieces = word (x :: w) :: rest := by
  induction blanks with
  | nil => exact Or.inl h
  | cons b blanks ih =>
    obtain ⟨hb, hrest⟩ := List.forall_mem_cons.1 hblanks
    by_cases hspace : b = ' ' ∨ b = '\t'
    · exact ih hrest ((pieces_blank_iff hspace).1 h)
    · obtain ⟨w, rest, rfl⟩ := h.cons_of_plain (plainChar_of_isBlank hb hspace)
      exact Or.inr ⟨b, w, rest, hb, rfl⟩

theorem pieces_comment_line (hblanks : ∀ d ∈ blanks, isBlank d = true)
    (h : Pieces (blanks ++ ';' :: c) pieces) :
    ∃ x w rest, LeadsComment x ∧ pieces = word (x :: w) :: rest := by
  rcases pieces_of_blanks hblanks h with h | ⟨x, w, rest, hx, rfl⟩
  · obtain ⟨w, rest, rfl⟩ := h.cons_of_plain (by decide)
    exact ⟨_, w, rest, Or.inl rfl, rfl⟩
  · exact ⟨x, w, rest, Or.inr hx, rfl⟩

theorem balanced_of_blanks (hblanks : ∀ d ∈ blanks, isBlank d = true) : Balanced blanks := by
  rw [balanced_iff_clears]
  induction blanks with
  | nil => exact ⟨rfl, rfl⟩
  | cons b blanks ih =>
    obtain ⟨hb, hrest⟩ := List.forall_mem_cons.1 hblanks
    have hmark : mark? false b = none := by
      by_cases hspace : b = ' ' ∨ b = '\t'
      · exact Scan.mark?_delimiter false (by rcases hspace with rfl | rfl <;> decide)
      · exact (plainChar_of_isBlank hb hspace).2
    have hquote : quotedBy false b = false := by
      refine if_neg ?_
      rintro rfl
      cases hb
    rw [clears_cons_of_plain hmark, hquote]
    exact ih hrest

/-- **A comment line has tokens**, and the first one is a word. -/
theorem tokenize_comment_line (hblanks : ∀ d ∈ blanks, isBlank d = true) (c : Text) :
    ∃ x w rest, LeadsComment x ∧ tokenize (blanks ++ ';' :: c) = .ok (word (x :: w) :: rest) := by
  have harrange : ∀ {x : Char} (w : Text) (ps : List Token), LeadsComment x →
      ∃ more rest, arrange (word (x :: w) :: ps) = word (x :: (w ++ more)) :: rest :=
    fun w ps hx => arrange_cons (hx.settled w) (List.cons_ne_nil _ _) ps
  by_cases horder : ∃ ps, Pieces (blanks ++ ';' :: c) ps
  · obtain ⟨ps, hps⟩ := horder
    obtain ⟨x, w, rest, hx, rfl⟩ := pieces_comment_line hblanks hps
    obtain ⟨more, rest', heq⟩ := harrange w rest hx
    exact ⟨x, w ++ more, rest', hx, by rw [hps.tokenize, heq]⟩
  · have hsemi : ';' ∉ blanks := fun hmem => by cases hblanks _ hmem
    have hbalanced := balanced_of_blanks hblanks
    obtain ⟨ts, hts⟩ := (tokenize_ok_iff hsemi).2 hbalanced
    rw [tokenize_eq_tokenizeAll hsemi] at hts
    obtain ⟨ps, hps, -⟩ := tokenizeAll_eq_ok.1 hts
    have htokens := tokenize_of_comment horder (cutComment?_of_balanced hbalanced hsemi c) hps
    have hblank : Pieces (blanks ++ []) ps := by rwa [List.append_nil]
    rcases pieces_of_blanks hblanks hblank with hnil | ⟨x, w, rest, hx, rfl⟩
    · obtain rfl := hnil.unique pieces_nil
      exact ⟨';', [], _, Or.inl rfl, htokens⟩
    · obtain ⟨more, rest', heq⟩ := harrange w rest (Or.inr hx)
      exact ⟨x, w ++ more, rest' ++ commentTokens c, Or.inr hx, by rw [htokens, heq]; rfl⟩

end

/-! ## The category of a comment -/

namespace Category

/-- The words of the comment are taken for a statement: a call wherever the line
    is, a store in a body, the label of a block or a definition at the top. -/
def Mistaken (indent : Indent) (ts : List Token) : Prop :=
  3 ≤ ts.length ∧
    (textAt ts 1 = "call" ∨
      indent = .topLevel ∧ (textAt ts 1 = "<label>" ∨ textAt ts 1 = "=") ∨
      indent = .statement ∧ 5 ≤ ts.length ∧ textAt ts 1 = "store")

instance (indent : Indent) (ts : List Token) : Decidable (Mistaken indent ts) :=
  inferInstanceAs (Decidable (_ ∧ _))

/-- Lines are discarded that no other category takes before. -/
theorem find?_all_eq_discard {p : Category → Bool} :
    all.find? p = some discard ↔
      p discard = true ∧ ∀ c, c ≠ discard → c ≠ invoke → p c = false := by
  have hall : all = all.takeWhile (· ≠ discard) ++ [discard, invoke] := by decide
  have hmem : ∀ c, c ∈ all.takeWhile (· ≠ discard) ↔ c ≠ discard ∧ c ≠ invoke := by
    intro c
    cases c <;> decide
  rw [hall, List.find?_append]
  cases hfind : (all.takeWhile (· ≠ discard)).find? p with
  | some c =>
    have hne := (hmem c).1 (List.mem_of_find?_eq_some hfind)
    refine iff_of_false (by simpa using hne.1) ?_
    rintro ⟨-, hnone⟩
    have hc := List.find?_some hfind
    rw [hnone c hne.1 hne.2] at hc
    cases hc
  | none =>
    have hnone : ∀ c, c ≠ discard → c ≠ invoke → p c = false := by
      intro c hdiscard hinvoke
      simpa using List.find?_eq_none.1 hfind c ((hmem c).2 ⟨hdiscard, hinvoke⟩)
    have hlast : [discard, invoke].find? p = some discard ↔ p discard = true := by
      cases hp : p discard <;> cases hp' : p invoke <;> simp [hp, hp']
    rw [Option.none_or, hlast]
    exact (and_iff_left hnone).symm

theorem ofLine_eq_ok {line : Line} {c : Category} :
    ofLine line = .ok c ↔ all.find? (suits line.indent line.tokens) = some c := by
  unfold ofLine
  cases all.find? (suits line.indent line.tokens) <;> simp

/-- The categories of lines without indentation. -/
theorem find?_all_topLevel (ts : List Token) :
    all.find? (suits .topLevel ts) =
      [label, declaration, global, functionHeader, functionEnd, call, discard, invoke].find?
        (suits .topLevel ts) := by
  have hbefore : ∀ c ∈ all.takeWhile (· ≠ label), suits .topLevel ts c = false := by
    intro c hc
    have hother : c.indent? = some .statement ∨ c.indent? = some .continuation :=
      (by decide : ∀ c ∈ all.takeWhile (· ≠ label),
        c.indent? = some .statement ∨ c.indent? = some .continuation) c hc
    rw [suits]
    rcases hother with hother | hother <;> rw [hother] <;> rfl
  have hall : all = all.takeWhile (· ≠ label) ++
      [label, declaration, global, functionHeader, functionEnd, call, discard, invoke] := by
    decide
  rw [hall, List.find?_append, List.find?_eq_none.2 (by simpa using hbefore), Option.none_or]

variable {x : Char} {w : Text} {rest : List Token} {indent : Indent}

theorem suits_discard_iff (hx : LeadsComment x) :
    suits indent (word (x :: w) :: rest) discard = true ↔ word (x :: w) = semicolon := by
  have htarget : x ≠ 't' := hx.ne (by decide) (by decide)
  simp [suits, indent?, fits, begins, textAt, text, htarget]

theorem leads_semicolon {v : Text} (hv : v ≠ [';']) (rest : List Token) :
    leads v (semicolon :: rest) = decide (textAt (semicolon :: rest) 1 = v) := by
  have : textAt (semicolon :: rest) 0 = [';'] := rfl
  simp [leads, this, hv.symm]

/-- A category takes a mistaken comment. -/
theorem Mistaken.exists_suits (h : Mistaken indent (semicolon :: rest)) :
    ∃ c, (c ≠ discard ∧ c ≠ invoke) ∧ suits indent (semicolon :: rest) c = true := by
  obtain ⟨hlength, hcall | ⟨rfl, hlabel | hglobal⟩ | ⟨rfl, hlength', hstore⟩⟩ := h
  · refine ⟨call, by decide, ?_⟩
    rw [suits, fits, leads_semicolon (by decide), hcall]
    simpa [indent?] using hlength
  · refine ⟨label, by decide, ?_⟩
    rw [suits, fits, hlabel]
    simpa [indent?] using Or.inr hlength
  · refine ⟨global, by decide, ?_⟩
    rw [suits, fits, hglobal]
    simpa [indent?] using hlength
  · refine ⟨store, by decide, ?_⟩
    rw [suits, fits, leads_semicolon (by decide), hstore]
    simpa [indent?] using hlength'

/-- A semicolon rules out all categories but these. -/
theorem mistaken_of_suits {c : Category} (hc : c ≠ discard ∧ c ≠ invoke)
    (hindent : indent ≠ .continuation) (h : suits indent (semicolon :: rest) c = true) :
    Mistaken indent (semicolon :: rest) := by
  have hassign : (beforeComment (semicolon :: rest)).any (Token.isWord "=") = false := rfl
  have hlabel : ((semicolon :: rest).head?.any fun t => !t.isGroup && t.text.endsWith ":") =
      false := rfl
  rw [suits, Bool.and_eq_true] at h
  obtain ⟨hsuits, hfits⟩ := h
  have hplace : ∀ i ∈ c.indent?, i = indent := by
    intro i hi
    simpa [Option.mem_def.1 hi] using hsuits
  cases c with
  | store =>
    rw [fits, leads_semicolon (by decide), Bool.and_eq_true, decide_eq_true_eq,
      decide_eq_true_eq] at hfits
    exact ⟨by omega, Or.inr (Or.inr ⟨(hplace _ rfl).symm, hfits⟩)⟩
  | label =>
    rw [fits, hlabel, Bool.false_or, Bool.and_eq_true, decide_eq_true_eq,
      decide_eq_true_eq] at hfits
    exact ⟨hfits.1, Or.inr (Or.inl ⟨(hplace _ rfl).symm, Or.inl hfits.2⟩)⟩
  | global =>
    rw [fits, Bool.and_eq_true, decide_eq_true_eq, decide_eq_true_eq] at hfits
    exact ⟨hfits.1, Or.inr (Or.inl ⟨(hplace _ rfl).symm, Or.inr hfits.2⟩)⟩
  | call =>
    rw [fits, leads_semicolon (by decide), Bool.and_eq_true, decide_eq_true_eq,
      decide_eq_true_eq] at hfits
    exact ⟨hfits.1, Or.inl hfits.2⟩
  | discard => exact absurd rfl hc.1
  | invoke => exact absurd rfl hc.2
  | load | operation | bitcast | elementPointer | alloca | extractValue | phi =>
    exact absurd (hplace _ rfl).symm hindent
  | assign =>
    rw [fits, hassign, Bool.and_false] at hfits
    cases hfits
  | branch | ret | switch | unreachable | indirectBranch | declaration | functionHeader
    | functionEnd =>
    simp [fits, begins, textAt, text] at hfits

/-- **A comment is discarded** iff its semicolon is a token of its own and its words
    are not mistaken. -/
theorem ofLine_comment_iff {line : Line} (hx : LeadsComment x)
    (htokens : line.tokens = word (x :: w) :: rest) (hindent : line.indent ≠ .continuation) :
    ofLine line = .ok discard ↔
      word (x :: w) = semicolon ∧ ¬ Mistaken line.indent line.tokens := by
  rw [ofLine_eq_ok, find?_all_eq_discard, htokens, suits_discard_iff hx]
  refine and_congr_right fun hsemicolon => ?_
  rw [hsemicolon]
  constructor
  · intro hnone hmistaken
    obtain ⟨c, hc, hsuits⟩ := hmistaken.exists_suits
    rw [hnone c hc.1 hc.2] at hsuits
    cases hsuits
  · intro hnot c hdiscard hinvoke
    exact Bool.eq_false_iff.2 fun hsuits =>
      hnot (mistaken_of_suits ⟨hdiscard, hinvoke⟩ hindent hsuits)

end Category

/-! ## Comment lines -/

section
variable {blanks : Text}

theorem allBlank_comment_line (blanks c : Text) : Text.allBlank (blanks ++ ';' :: c) = false := by
  rw [Text.allBlank, List.all_append, List.all_cons]
  have : isBlank ';' = false := by decide
  simp [this]

theorem leadsComment_of_dropWhile (hblanks : ∀ d ∈ blanks, isBlank d = true) (c : Text) :
    ∃ x rest, LeadsComment x ∧ (blanks ++ ';' :: c).dropWhile (· = ' ') = x :: rest := by
  induction blanks with
  | nil => exact ⟨';', c, Or.inl rfl, rfl⟩
  | cons b blanks ih =>
    obtain ⟨hb, hrest⟩ := List.forall_mem_cons.1 hblanks
    by_cases hspace : b = ' '
    · rw [List.cons_append, List.dropWhile_cons_of_pos (by simpa using hspace)]
      exact ih hrest
    · rw [List.cons_append, List.dropWhile_cons_of_neg (by simpa using hspace)]
      exact ⟨b, blanks ++ ';' :: c, Or.inr hb, rfl⟩

theorem eq_dropWhile_of_afterSpaces? {t rest : Text} (h : Text.afterSpaces? t = some rest) :
    rest = t.dropWhile (· = ' ') := by
  unfold Text.afterSpaces? at h
  split at h
  · rw [List.dropWhile_cons_of_pos (by simp), ← Option.some.inj h]
  · cases h

theorem opensTable_comment_line (hblanks : ∀ d ∈ blanks, isBlank d = true) (c : Text) :
    opensTable (blanks ++ ';' :: c) = false := by
  obtain ⟨x, rest, hx, hdrop⟩ := leadsComment_of_dropWhile hblanks c
  have hswitch : Text.startsWith (x :: rest) "switch " = false := by
    have hne : 's' ≠ x := (hx.ne (by decide) (by decide)).symm
    simp [Text.startsWith, Text.after?, hne]
  unfold opensTable
  cases hafter : Text.afterSpaces? (blanks ++ ';' :: c) with
  | none => rfl
  | some rest' =>
    obtain rfl := (eq_dropWhile_of_afterSpaces? hafter).trans hdrop
    rw [Option.any_some, hswitch, Bool.false_and]

theorem outline_comment_line (hblanks : ∀ d ∈ blanks, isBlank d = true) (c : Text) (base : Nat) :
    (Outline.ofLines false base [blanks ++ ';' :: c]).result =
      .ok ⟨[⟨blanks ++ ';' :: c, base + 1⟩], []⟩ :=
  Outline.ofLines_single (allBlank_comment_line blanks c) (opensTable_comment_line hblanks c) base

theorem LogicalLine.IsDiscarded.isReadable {line : LogicalLine} (h : line.IsDiscarded) :
    line.IsReadable := by
  unfold IsDiscarded at h
  cases hline : Line.ofText line.text line.number with
  | error e =>
    rw [hline] at h
    cases h
  | ok l =>
    rw [hline] at h
    have hcategory : Category.ofLine l = .ok .discard := h
    refine ⟨none, ?_⟩
    rw [Statement.result_ofText hline, Statement.result_of_category hcategory (by decide)]
    rfl

/-- A comment line has no node iff it is discarded. -/
theorem Listing.ofLines_comment_iff (hblanks : ∀ d ∈ blanks, isBlank d = true) (c : Text)
    (base : Nat) :
    (Listing.ofLines false base [blanks ++ ';' :: c]).result = .ok ⟨[], []⟩ ↔
      LogicalLine.IsDiscarded ⟨blanks ++ ';' :: c, base + 1⟩ := by
  have houtline := outline_comment_line hblanks c base
  have hlisting : ∀ {line : LogicalLine}, line.IsReadable → line = ⟨blanks ++ ';' :: c, base + 1⟩ →
      ((Listing.ofLines false base [blanks ++ ';' :: c]).result = .ok ⟨[], []⟩ ↔
        line.node? = none) := by
    rintro line hreadable rfl
    rw [(Listing.ofLines_of_readable houtline (by simpa using hreadable)).1]
    cases hnode : LogicalLine.node? ⟨blanks ++ ';' :: c, base + 1⟩ <;> simp [hnode]
  constructor
  · intro h
    obtain ⟨o, ho, hreadable⟩ := Listing.readable_of_ofLines h
    obtain rfl := Except.ok.inj (ho.symm.trans houtline)
    have hline := hreadable _ List.mem_cons_self
    exact hline.node?_eq_none_iff.1 ((hlisting hline rfl).1 h)
  · intro h
    exact (hlisting h.isReadable rfl).2 (h.isReadable.node?_eq_none_iff.2 h)

theorem Indent.ofBlanks_ne_continuation (n : Nat) : Indent.ofBlanks n ≠ .continuation := by
  unfold ofBlanks
  split <;> simp

/-- The indentation of a text. -/
def Text.indent (t : Text) : Indent := .ofBlanks (t.takeWhile (· = ' ')).length

/-- A comment is ignored iff its semicolon is a token of its own and its words are
    not mistaken. -/
theorem Listing.ofLines_comment_tokens_iff (hblanks : ∀ d ∈ blanks, isBlank d = true) {c : Text}
    {first : Token} {rest : List Token} (base : Nat)
    (h : tokenize (blanks ++ ';' :: c) = .ok (first :: rest)) :
    (Listing.ofLines false base [blanks ++ ';' :: c]).result = .ok ⟨[], []⟩ ↔
      first = semicolon ∧
        ¬ Category.Mistaken (Text.indent (blanks ++ ';' :: c)) (first :: rest) := by
  obtain ⟨x, w, rest', hx, htokens⟩ := tokenize_comment_line hblanks c
  obtain ⟨rfl, rfl⟩ := List.cons.inj (Except.ok.inj (h.symm.trans htokens))
  have hline : Line.ofText (blanks ++ ';' :: c) (base + 1) = .ok
      ⟨(blanks ++ ';' :: c).trim, base + 1, Text.indent (blanks ++ ';' :: c),
        word (x :: w) :: rest⟩ := by
    rw [Line.ofText, tokensOf_eq_ok.2 h]
    rfl
  rw [Listing.ofLines_comment_iff hblanks, LogicalLine.IsDiscarded, hline]
  exact Category.ofLine_comment_iff hx rfl (Indent.ofBlanks_ne_continuation _)

/-- **Comment lines** always have tokens. They are ignored iff the first of these is
    the semicolon and the words of the comment are not mistaken for a statement. If
    only spaces and tabulators are before the semicolon and a delimiter or nothing
    is behind it, it is a token unless the comment is in order and begins with stars. -/
theorem comment_discarded_iff (hblanks : ∀ d ∈ blanks, isBlank d = true) (c : Text) (base : Nat) :
    ∃ first rest, tokensOf (blanks ++ ';' :: c) (base + 1) = .ok (first :: rest) ∧
      ((Listing.ofLines false base [blanks ++ ';' :: c]).result = .ok ⟨[], []⟩ ↔
        first = semicolon ∧
          ¬ Category.Mistaken (Text.indent (blanks ++ ';' :: c)) (first :: rest)) ∧
      ((∀ d ∈ blanks, d = ' ' ∨ d = '\t') → (∀ d ∈ c.head?, Scan.Delimits d) →
        (first = semicolon ↔ ¬ StarsFirst c)) := by
  obtain ⟨x, w, rest, -, htokens⟩ := tokenize_comment_line hblanks c
  refine ⟨word (x :: w), rest, tokensOf_eq_ok.2 htokens,
    Listing.ofLines_comment_tokens_iff hblanks base htokens, fun hspaces hc => ?_⟩
  have hsemi : ';' ∉ blanks := fun hmem => by cases hblanks _ hmem
  obtain ⟨more, rest', htokens', hmore⟩ :=
    (detached_blanks hspaces).tokenize_comment hsemi (List.forall_mem_nil _) hc
  obtain ⟨hfirst, -⟩ := List.cons.inj (Except.ok.inj (htokens.symm.trans htokens'))
  rw [hfirst, ← hmore]
  simp

/-- In a comment in a body, an equals sign makes no assignment. -/
theorem comment_discarded_iff_of_assignment :
    let blanks : Text := "  "
    (∀ d ∈ blanks, isBlank d = true) ∧
      (Listing.ofLines false 0 [blanks ++ ';' :: " x = y z".toList]).result = .ok ⟨[], []⟩ := by
  intro blanks
  have hblanks : ∀ d ∈ blanks, isBlank d = true := List.all_eq_true.1 (by decide)
  have hpieces : Pieces (blanks ++ ';' :: " x = y z".toList)
      [semicolon, word "x", word "=", word "y", word "z"] := by
    refine ⟨by decide, ?_⟩
    exact .cons (.word rfl) (.cons (.word rfl) (.cons (.word rfl) (.cons (.word rfl)
      (.cons (.word rfl) .nil))))
  obtain ⟨first, rest, htokens, hiff, -⟩ := comment_discarded_iff hblanks " x = y z" 0
  rw [tokensOf_eq_ok, hpieces.tokenize] at htokens
  have harrange : arrange [semicolon, word "x", word "=", word "y", word "z"] =
      [semicolon, word "x", word "=", word "y", word "z"] := by decide
  obtain ⟨rfl, rfl⟩ := List.cons.inj (harrange.symm.trans (Except.ok.inj htokens))
  exact ⟨hblanks, hiff.2 ⟨rfl, by decide⟩⟩

/-- A comment whose first word is `call` is taken for a call. -/
theorem not_discarded_of_call :
    (Listing.ofLines false 0 ["; call graph follows"]).result ≠ .ok ⟨[], []⟩ := by
  have hpieces : Pieces "; call graph follows"
      [semicolon, word "call", word "graph", word "follows"] := by
    refine ⟨by decide, ?_⟩
    exact .cons (.word rfl) (.cons (.word rfl) (.cons (.word rfl) (.cons (.word rfl) .nil)))
  have htokens : tokenize "; call graph follows" =
      .ok [semicolon, word "call", word "graph", word "follows"] := by
    rw [hpieces.tokenize]
    decide
  intro h
  have hiff := Listing.ofLines_comment_tokens_iff (List.forall_mem_nil _) 0 htokens
  exact (hiff.1 h).2 (by decide)

end

end LlvmAsm
