/-
  Calls through a pointer.

  The name of a pointer is spelled like a type, so a list of arguments that looks like the
  signature of a function goes on with it. Arguments have a type and a value, so only a list
  without any looks like a signature. If it is `()`, it is taken off the name again when the
  call is read, but `( )` is not: a call through a pointer is read like a direct call unless
  its list of arguments is blank (`call_alike_iff`).

  * `isSignature_arguments_iff`: which lists of arguments look like a signature;
  * `foldl_place_call`: the type behind the word `call` is a token of its own, unless it
    begins with stars;
  * `call_named`, `call_applied` and `call_unapplied`: what the tokens of a call lead to.
-/
import LlvmAsm.Instruction.Calls
import LlvmAsm.Proofs.Body
import LlvmAsm.Proofs.Operand
import LlvmAsm.Proofs.Token.Comment
import LlvmAsm.Proofs.Token.Content
import LlvmAsm.Proofs.Value

namespace LlvmAsm

open Reading Token

/-! ## Alike calls -/

/-- The cause without the tokens that are reported with it. -/
def Cause.kind : Cause → Cause
  | lacking expected _ => lacking expected []
  | cause => cause

/-- A call through the pointer of the given name and a direct call of the function of that
    name: the nodes differ in nothing but the sigil of the callee, or both readings fail at
    the same line for the same kind of reason. -/
inductive CalledAlike (name : Text) (pointer direct : Reading Node) : Prop
  | read (number : Nat) (site : Call)
      (hpointer : pointer.result = .ok ⟨number, some ('%' :: name), false,
        .call { site with callee := '%' :: name }⟩)
      (hdirect : direct.result = .ok ⟨number, some ('@' :: name), false,
        .call { site with callee := '@' :: name }⟩)
      (hnoted : direct.noted = pointer.noted)
  | failed (e e' : Failure) (hpointer : pointer.result = .error e)
      (hdirect : direct.result = .error e') (hnumber : e'.number = e.number)
      (hkind : e'.cause.kind = e.cause.kind)

/-! ## Arguments that look like a signature -/

/-- If every argument has two tokens or more, parentheses without arguments are the only
    ones that look like the signature of a function. -/
theorem isSignature_arguments_iff {a : Text} {ts : List Token} (ha : tokenize a = .ok ts)
    (hparts : ∀ part ∈ splitCommas ts, 2 ≤ part.length) :
    (Token.group ('(' :: a ++ [')']) .paren ts).isSignature = true ↔ ts = [] := by
  have hbare : TypeText.bare ('(' :: a ++ [')']) = '(' :: a ++ [')'] :=
    TypeText.bare_of_getLast? (by rw [List.getLast?_concat]; decide)
  have hend : Text.endsWith ('(' :: a ++ [')']) ")" = true := Text.endsWith_append _ _
  constructor
  · intro h
    simp only [isSignature, text, hbare, inner?, Bool.and_eq_true, Bool.or_eq_true,
      decide_eq_true_eq] at h
    -- a signature is `()`, `(...)` or a list of single tokens
    obtain ⟨-, (hnone | hdots) | hall⟩ := h
    · obtain rfl : a = [] := by simpa using hnone
      rw [pieces_nil.tokenize] at ha
      exact (Except.ok.inj ha).symm
    · obtain rfl : a = "...".toList :=
        List.append_cancel_right (List.cons.inj hdots).2
      have hdots : Pieces "..." [word "..."] :=
        pieces_word (by simp) (plainChars_of_all (by decide))
      rw [hdots.tokenize] at ha
      have hone := hparts [word "..."] (by rw [← Except.ok.inj ha]; decide)
      exact absurd hone (by decide)
    · by_contra hne
      obtain ⟨t, ts, rfl⟩ := List.exists_cons_of_ne_nil hne
      obtain ⟨part, parts, hsplit⟩ := List.exists_cons_of_ne_nil
        (splitWhere_ne_nil Token.isSeparator (t :: ts))
      have hmem : part ∈ splitCommas (t :: ts) := by
        rw [splitCommas, hsplit]
        · exact List.mem_cons_self
        · simp
      have hpart := List.all_eq_true.1 hall part hmem
      have hlength := hparts part hmem
      cases part with
      | nil => exact absurd hlength (by decide)
      | cons x rest =>
        cases rest with
        | nil => exact absurd hlength (Nat.not_succ_le_self 1)
        | cons y rest => cases hpart
  · rintro rfl
    simp only [isSignature, text, hbare, hend]
    simp [inner?, splitCommas]

/-- Parentheses that look like no signature stand by themselves. -/
theorem Token.place_arguments {w : Text} {e : Encloser} {inner before : List Token}
    (hhead : w.head? = some '(') (h : (group w e inner).isSignature = false) :
    place before (group w e inner) = group w e inner :: before := by
  cases before with
  | nil => rfl
  | cons last rest =>
    simp [place, placeApart, text, extends?_of_paren hhead, h]

/-- Parentheses around blanks do not end in `()`. -/
theorem endsWith_blank_arguments {p a : Text} (ha : tokenize a = .ok []) (hne : a ≠ []) :
    Text.endsWith (p ++ '(' :: (a ++ [')'])) "()" = false := by
  rw [Bool.eq_false_iff]
  intro hend
  obtain ⟨u, hu⟩ := Text.endsWith_iff.1 hend
  obtain ⟨init, last, rfl⟩ := (List.eq_nil_or_concat' a).resolve_left hne
  have hlast : last = '(' := by
    have hsplit : (p ++ '(' :: init) ++ [last, ')'] = u ++ ['(', ')'] := by simpa using hu
    exact (List.cons.inj (List.append_inj_right' hsplit rfl)).1
  have hcontent : '(' ∈ Text.content (init ++ [last]) := by
    rw [hlast]
    exact List.mem_filter.2 ⟨List.mem_concat_self, by decide⟩
  rw [← content_tokenize ha] at hcontent
  cases hcontent

/-! ## The tokens of a call -/

section
variable {T a : Text} {ps ts : List Token} {t : Token} {c : Char}

theorem inert_call : (word "call").Inert := ⟨by decide, by decide⟩

/-- The type behind the word `call` is a token of its own, unless it begins with stars,
    which go on with the word. -/
theorem foldl_place_call (hps : Pieces T ps) (hone : arrange ps = [t]) :
    (¬ StarsFirst T ∧ ps.foldl place [word "call"] = [t, word "call"]) ∨
      (StarsFirst T ∧ ∃ newer more, more ≠ [] ∧
        ps.foldl place [word "call"] = newer ++ [word ("call".toList ++ more)]) := by
  cases ps with
  | nil => cases hone
  | cons q qs =>
    have hq : q.text ≠ [] := hps.text_ne_nil q List.mem_cons_self
    by_cases hstars : ∀ c ∈ q.text, c = '*'
    · right
      have hall : q.text.all (· = '*') = true := by simpa using hstars
      have hjoined : place [word "call"] q = [word ("call".toList ++ q.text)] := by
        have hext : extends? q.text (word "call") = true := by
          simp [extends?, hall, isSeparator, isWord]
        rw [place, if_pos hext]
        rfl
      have hsettled : (word ("call".toList ++ q.text)).Settled := by simp [Settled, isWord]
      obtain ⟨newer, more, hfold, -⟩ :=
        foldl_place_beyond [] hsettled (by simp [text]) (List.forall_mem_nil _) qs
      refine ⟨⟨q, qs, hps, hstars⟩, newer, q.text ++ more, by simp [hq], ?_⟩
      rw [List.nil_append] at hfold
      rw [List.foldl_cons, hjoined, hfold]
      simp [append]
    · left
      refine ⟨?_, ?_⟩
      · rw [starsFirst_iff hps]
        rintro ⟨p, hp, hall⟩
        obtain rfl : q = p := Option.some.inj hp
        exact hstars hall
      · have hfirst : ∃ c ∈ q.text, c ≠ '*' := by simpa using hstars
        have hcall : ∀ b ∈ [word "call"], b.Settled :=
          List.forall_mem_singleton.2 (by decide)
        have hplace : place [word "call"] q = [q] ++ [word "call"] :=
          place_behind (fun last hlast => by
            obtain rfl : word "call" = last := Option.some.inj hlast
            exact inert_call) hfirst fun _ _ => hcall
        have hrest : qs.foldl place [q] = [t] := by
          rw [arrange, List.foldl_cons, place_nil, List.reverse_eq_iff] at hone
          exact hone
        rw [List.foldl_cons, hplace, foldl_place_append (List.cons_ne_nil q []) hcall, hrest]
        rfl

/-- The text of a call. -/
def callText (T : Text) (sigil : Char) (name a : Text) : Text :=
  "call" ++ ' ' :: (T ++ ' ' :: (sigil :: name ++ '(' :: (a ++ [')'])))

/-- The arguments are placed behind the name. -/
theorem tokenize_callText (hc : c = '%' ∨ c = '@') (hps : Pieces T ps) (name : PlainName)
    (horder : (cut a).2 = none) (ha : tokenize a = .ok ts) :
    tokenize (callText T c name.text a) =
      .ok (place (word (c :: name.text) :: ps.foldl place [word "call"])
        (group ('(' :: a ++ [')']) .paren ts)).reverse := by
  have hcall : Pieces "call" [word "call"] :=
    pieces_word (by simp) (plainChars_of_all (by decide))
  have hgroup : Pieces ('(' :: (a ++ [')'])) [.group ('(' :: a ++ [')']) .paren ts] :=
    pieces_group horder ha rfl rfl pieces_nil
  have hsigil : Yields (c :: name.text) [word (c :: name.text)] := by
    simpa using name.yields_sigil hc (List.forall_mem_nil _)
  obtain ⟨ns, hns, hname⟩ := hsigil
  have hparen : Scan.Delimits '(' := Or.inr (Or.inr (Or.inr (by decide)))
  have harguments := hns.append hparen hgroup
  have htarget := hps.append (Or.inl rfl) ((pieces_blank_iff (Or.inl rfl)).2 harguments)
  have hall := hcall.append (Or.inl rfl) ((pieces_blank_iff (Or.inl rfl)).2 htarget)
  have htokens : tokenize (callText T c name.text a) = _ := hall.tokenize
  rw [htokens, arrange, List.foldl_append, List.foldl_append, List.foldl_append,
    hname]
  simp [place_nil]

/-- A type that begins with stars leaves no word `call`. -/
theorem tokenize_callText_stars (hc : c = '%' ∨ c = '@') (hps : Pieces T ps)
    (hone : arrange ps = [t]) (name : PlainName) (horder : (cut a).2 = none)
    (ha : tokenize a = .ok ts) (hstars : StarsFirst T) :
    ∃ more rest, more ≠ [] ∧ tokenize (callText T c name.text a) =
      .ok (word ("call".toList ++ more) :: rest) := by
  rcases foldl_place_call hps hone with ⟨hnot, -⟩ | ⟨-, newer, more, hmore, hfold⟩
  · exact absurd hstars hnot
  have hsettled : (word ("call".toList ++ more)).Settled := by simp [Settled, isWord]
  obtain ⟨newer', more', hplace, hbeyond⟩ := place_beyond (word (c :: name.text) :: newer) hsettled
    (List.forall_mem_nil _) (group ('(' :: a ++ [')']) .paren ts)
  obtain ⟨-, rfl⟩ := hbeyond (List.cons_ne_nil _ _)
  refine ⟨more, newer'.reverse, hmore, ?_⟩
  rw [tokenize_callText hc hps name horder ha, hfold, ← List.cons_append, hplace]
  simp

/-- In a direct call, the arguments are a token of their own. -/
theorem tokenize_callText_direct (hps : Pieces T ps) (hone : arrange ps = [t]) (name : PlainName)
    (horder : (cut a).2 = none) (ha : tokenize a = .ok ts) (hstars : ¬ StarsFirst T) :
    tokenize (callText T '@' name.text a) =
      .ok [word "call", t, word ('@' :: name.text), group ('(' :: a ++ [')']) .paren ts] := by
  rcases foldl_place_call hps hone with ⟨-, hfold⟩ | ⟨hfirst, -⟩
  · have hinert : (word ('@' :: name.text)).Inert :=
      ⟨Symbol.isType_text ⟨false, .plain name⟩, by simp [text, name.ne_nil]⟩
    have hbehind : ∀ last ∈ (word ('@' :: name.text) :: [t, word "call"]).head?, last.Inert := by
      intro last hlast
      obtain rfl : word ('@' :: name.text) = last := Option.some.inj hlast
      exact hinert
    rw [tokenize_callText (Or.inr rfl) hps name horder ha, hfold,
      place_behind hbehind ⟨'(', List.mem_cons_self, by decide⟩ (by rintro _ ⟨⟩)]
    rfl
  · exact absurd hfirst hstars

/-- The name of a pointer takes up arguments that look like a signature. -/
theorem tokenize_callText_pointer (hps : Pieces T ps) (hone : arrange ps = [t]) (name : PlainName)
    (horder : (cut a).2 = none) (ha : tokenize a = .ok ts) (hstars : ¬ StarsFirst T) :
    tokenize (callText T '%' name.text a) =
      .ok (if (group ('(' :: a ++ [')']) .paren ts).isSignature then
          [word "call", t, word ('%' :: name.text ++ ' ' :: '(' :: a ++ [')'])]
        else [word "call", t, word ('%' :: name.text), group ('(' :: a ++ [')']) .paren ts]) := by
  rcases foldl_place_call hps hone with ⟨-, hfold⟩ | ⟨hfirst, -⟩
  · rw [tokenize_callText (Or.inl rfl) hps name horder ha, hfold]
    have htype : TypeText.isType (word ('%' :: name.text)).text = true :=
      Symbol.isType_text ⟨true, .plain name⟩
    have hword : (word ('%' :: name.text)).isSeparator = false := by simp [isSeparator, isWord]
    split
    · rw [place_signature hword htype ‹_›]
      simp [append, text]
    · rw [place_arguments rfl (Bool.eq_false_iff.2 ‹_›)]
      rfl
  · exact absurd hfirst hstars

end

/-! ## Reading a call -/

/-- No type is among words that are no types. -/
theorem dropWordsAt_type (ws : List Text) {t : Token}
    (hws : ∀ w ∈ ws, TypeText.isType w = false) (ht : TypeText.isType t.text = true)
    (first : Token) (rest : List Token) :
    dropWordsAt ws 1 (first :: t :: rest) = first :: t :: rest := by
  have hnot : t.isOneOf ws = false := by
    rw [Bool.eq_false_iff]
    intro h
    cases t with
    | group => cases h
    | word w =>
      rw [text, hws w (by simpa [isOneOf] using h)] at ht
      cases ht
  simp [dropWordsAt, hnot]

/-- The node of a call whose callee follows the type at once. -/
def callNode (line : Line) (ty callee : Text) (params : List Operand) : Node :=
  ⟨line.number, some callee, false,
    .call ⟨callee, ty, [], params, line.indent ≠ .continuation⟩⟩

section
variable {line : Line} {t : Token} {c : Char} {w : Text} {ts : List Token}

/-- A symbol is called itself, unless it ends in its arguments. -/
theorem callee_symbol (line : Line) (hc : c = '%' ∨ c = '@') (w : Text)
    (before rest : List Token) :
    Instruction.callee line before (word (c :: w)) rest =
      if Text.endsWith (c :: w) "()" then
        pure (.applied (Text.trimEnd ((c :: w).take ((c :: w).length - 2))))
      else pure (.named (c :: w) rest) := by
  have hheads : ∀ v ∈ Vocabulary.expressions, v.head? ≠ some '%' ∧ v.head? ≠ some '@' := by
    decide
  have hexpression : (word (c :: w)).isExpression = false := by
    rw [Bool.eq_false_iff]
    intro h
    have hmem : c :: w ∈ Vocabulary.expressions := by
      simpa [isExpression, isOneOf] using h
    obtain ⟨hpercent, hat⟩ := hheads _ hmem
    rcases hc with rfl | rfl
    · exact hpercent rfl
    · exact hat rfl
  rw [Instruction.callee, if_neg (by simp [hexpression])]
  rfl

/-- The name of what is called, and its arguments. -/
def Instruction.Callee.arguments (line : Line) (before : List Token) :
    Instruction.Callee → Reading (Text × List Operand)
  | .applied name => pure (name, [])
  | .named name rest =>
    match rest.head?.bind (Token.innerOf? .paren) with
    | some args => Prod.mk name <$> parameters line args
    | none => fail (line.lacks .callArguments (before ++ rest))

/-- The site of a call whose callee follows the type at once. -/
theorem callSite_eq (line : Line) (hc : c = '%' ∨ c = '@') (ht : TypeText.isType t.text = true)
    (w : Text) (rest : List Token) :
    Instruction.callSite line (word "call" :: t :: word (c :: w) :: rest) = do
      let called ← Instruction.callee line [word "call", t] (word (c :: w)) rest
      let (name, params) ← called.arguments line [word "call", t]
      note t.text
      return ⟨name, t.text, [], params, line.indent ≠ .continuation⟩ := by
  -- no type is an attribute or a calling convention, so nothing is dropped before it
  have hattributes := fun rest => dropWordsAt_type Vocabulary.parameterAttributes
    (by decide) ht (word "call") rest
  have hconventions := fun rest => dropWordsAt_type Vocabulary.callingConventions
    (by decide) ht (word "call") rest
  have hsymbol : Instruction.isSymbol (word (c :: w)) = true := by
    rcases hc with rfl | rfl <;> simp [Instruction.isSymbol, Text.startsWith, Text.after?]
  have htarget : Instruction.callTarget line [word "call", t] [] (word (c :: w) :: rest) =
      pure ([], word (c :: w), rest) := by
    rw [Instruction.callTarget, if_pos (by rw [hsymbol, Bool.true_or])]
  have hty : textAt line (word "call" :: t :: word (c :: w) :: rest) 1 = pure t.text := rfl
  have htail : (word "call").is "tail" = false := by decide
  have hcall : (word "call").is "call" = true := by decide
  have htake : (word "call" :: t :: word (c :: w) :: rest).take 2 = [word "call", t] := rfl
  have hdrop : (word "call" :: t :: word (c :: w) :: rest).drop 2 = word (c :: w) :: rest := rfl
  simp only [Instruction.callSite, List.head?_cons, Option.any_some, htail, hcall,
    Bool.false_eq_true, if_false, Bool.true_or, Bool.not_true]
  rw [hattributes, hconventions, hattributes, hty, pure_bind, htake, hdrop, htarget, pure_bind]
  refine bind_congr fun called => ?_
  cases called with
  | applied name => rfl
  | named name rest =>
    dsimp only [Instruction.Callee.arguments]
    cases rest.head?.bind (innerOf? .paren) with
    | some args => rfl
    | none => rfl

theorem PlainName.not_endsWith_parens (name : PlainName) (hc : c = '%' ∨ c = '@') :
    Text.endsWith (c :: name.text) "()" = false := by
  refine name.not_endsWith (d := ')') (by decide) (by decide) ?_
  rcases hc with rfl | rfl <;> decide

/-- Arguments behind the name are those of the call. -/
theorem call_named (hc : c = '%' ∨ c = '@') (ht : TypeText.isType t.text = true)
    (hend : Text.endsWith (c :: w) "()" = false) {g : Text}
    (hline : line.tokens = [word "call", t, word (c :: w), group g .paren ts]) :
    Instruction.call line = do
      let params ← parameters line ts
      note t.text
      return callNode line t.text (c :: w) params := by
  have hcalled := callee_symbol line hc w [word "call", t] [group g .paren ts]
  rw [hend, if_neg Bool.false_ne_true] at hcalled
  have harguments : Instruction.Callee.arguments line [word "call", t]
      (.named (c :: w) [group g .paren ts]) = Prod.mk (c :: w) <$> parameters line ts := rfl
  rw [Instruction.call, hline, callSite_eq line hc ht, hcalled, pure_bind, harguments]
  simp [callNode]

/-- A name that ends in `()` is called without arguments. -/
theorem call_applied (hc : c = '%' ∨ c = '@') (ht : TypeText.isType t.text = true)
    (hblank : ∀ d ∈ c :: w, isBlank d = false)
    (hline : line.tokens = [word "call", t, word (c :: w ++ " ()".toList)]) :
    Instruction.call line = do
      note t.text
      return callNode line t.text (c :: w) [] := by
  have hend : Text.endsWith (c :: (w ++ " ()".toList)) "()" = true := by
    have := Text.endsWith_append (c :: w ++ [' ']) "()"
    simpa using this
  have hname : Text.trimEnd ((c :: (w ++ " ()".toList)).take
      ((c :: (w ++ " ()".toList)).length - 2)) = c :: w := by
    have htake : (c :: (w ++ " ()".toList)).take ((c :: (w ++ " ()".toList)).length - 2) =
        c :: w ++ [' '] := by
      have hsplit : c :: (w ++ " ()".toList) = c :: w ++ [' '] ++ "()".toList := by simp
      rw [hsplit, List.take_left' (by simp)]
    have hspace : ∀ d ∈ [' '], isBlank d = true := List.forall_mem_singleton.2 (by decide)
    rw [htake, Text.trimEnd_append hspace fun d hd => hblank d (List.mem_of_getLast? hd)]
  have hcalled := callee_symbol line hc (w ++ " ()".toList) [word "call", t] []
  rw [hend, if_pos rfl, hname] at hcalled
  have harguments : Instruction.Callee.arguments line [word "call", t] (.applied (c :: w)) =
      pure (c :: w, []) := rfl
  rw [Instruction.call, hline, List.cons_append, callSite_eq line hc ht, hcalled, pure_bind,
    harguments]
  simp [callNode]

/-- A call needs arguments. -/
theorem call_unapplied (hc : c = '%' ∨ c = '@') (ht : TypeText.isType t.text = true)
    (hend : Text.endsWith (c :: w) "()" = false)
    (hline : line.tokens = [word "call", t, word (c :: w)]) :
    Instruction.call line = fail (line.lacks .callArguments [word "call", t]) := by
  have hcalled := callee_symbol line hc w [word "call", t] []
  rw [hend, if_neg Bool.false_ne_true] at hcalled
  have harguments : Instruction.Callee.arguments line [word "call", t] (.named (c :: w) []) =
      fail (line.lacks .callArguments [word "call", t]) := rfl
  rw [Instruction.call, hline, callSite_eq line hc ht, hcalled, pure_bind, harguments]
  rfl

/-- A line that begins with another word is no call. -/
theorem call_of_more {more : Text} {rest : List Token} (hmore : more ≠ [])
    (hline : line.tokens = word ("call".toList ++ more) :: rest) :
    Instruction.call line =
      fail (line.lacks .callWord (word ("call".toList ++ more) :: rest)) := by
  have hcall : (word ("call".toList ++ more)).is "call" = false := by
    simp [Token.is, text, hmore]
  have htail : (word ("call".toList ++ more)).is "tail" = false := by
    simp [Token.is, text]
  have hinvoke : (word ("call".toList ++ more)).is "invoke" = false := by
    simp [Token.is, text]
  rw [Instruction.call, hline, Instruction.callSite]
  simp only [List.head?_cons, Option.any_some, htail, hcall, hinvoke, Bool.false_eq_true,
    if_false, Bool.or_self, Bool.not_false, if_true]
  rfl

end

/-! ## Both calls -/

section
variable {T a : Text} {t : Token} {ts : List Token}

/-- Nodes and failures come from the parameters, which are the same. -/
theorem calledAlike_of_parameters (line : Line) (ty : Text) {name : Text}
    {r : Reading (List Operand)} {pointer direct : Reading Node}
    (hpointer : pointer = do
      let params ← r
      note ty
      return callNode line ty ('%' :: name) params)
    (hdirect : direct = do
      let params ← r
      note ty
      return callNode line ty ('@' :: name) params) :
    CalledAlike name pointer direct := by
  subst hpointer hdirect
  cases hr : r.result with
  | ok params =>
    refine .read line.number ⟨[], ty, [], params, line.indent ≠ .continuation⟩ ?_ ?_ ?_
    · rw [result_bind_ok hr]
      rfl
    · rw [result_bind_ok hr]
      rfl
    · rw [noted_bind_ok hr, noted_bind_ok hr]
      rfl
  | error e => exact .failed e e (result_bind_error hr _) (result_bind_error hr _) rfl rfl

/-- Calls with the same tokens behind the names are alike. -/
theorem calledAlike_named (name : PlainName) (ht : TypeText.isType t.text = true) (g : Text)
    (line : Line) :
    CalledAlike name.text
      (Instruction.call { line with
        tokens := [word "call", t, word ('%' :: name.text), group g .paren ts] })
      (Instruction.call { line with
        tokens := [word "call", t, word ('@' :: name.text), group g .paren ts] }) := by
  refine calledAlike_of_parameters _ t.text
    (call_named (Or.inl rfl) ht (name.not_endsWith_parens (Or.inl rfl)) rfl) ?_
  rw [call_named (Or.inr rfl) ht (name.not_endsWith_parens (Or.inr rfl)) rfl]
  exact congrArg (· >>= _) ((agree_parameters ts).alike rfl).eq

/-- The name of a pointer with blank arguments is called if the arguments are empty. -/
theorem calledAlike_blank_iff (name : PlainName) (ht : TypeText.isType t.text = true)
    (ha : tokenize a = .ok []) (line : Line) :
    CalledAlike name.text
        (Instruction.call { line with
          tokens := [word "call", t, word ('%' :: name.text ++ ' ' :: '(' :: a ++ [')'])] })
        (Instruction.call { line with
          tokens := [word "call", t, word ('@' :: name.text),
            group ('(' :: a ++ [')']) .paren []] }) ↔ a = [] := by
  have hat := name.not_endsWith_parens (Or.inr rfl)
  constructor
  · intro halike
    by_contra hne
    -- the call through the pointer lacks arguments, and the direct one is read without any
    have hend : Text.endsWith ('%' :: name.text ++ ' ' :: '(' :: a ++ [')']) "()" = false := by
      simpa using endsWith_blank_arguments (p := '%' :: name.text ++ [' ']) ha hne
    rw [call_unapplied (Or.inl rfl) ht hend rfl] at halike
    cases halike with
    | read _ _ hpointer => cases hpointer
    | failed _ _ _ hdirect =>
      rw [call_named (Or.inr rfl) ht hat rfl, parameters_nil] at hdirect
      cases hdirect
  · rintro rfl
    have hname : ∀ d ∈ '%' :: name.text, isBlank d = false := List.forall_mem_cons.2
      ⟨by decide, fun d hd => not_isBlank_of_isNameChar (name.plain d hd)⟩
    refine calledAlike_of_parameters line t.text (r := pure []) ?_ ?_
    · rw [call_applied (Or.inl rfl) ht hname (by simp)]
      rfl
    · rw [call_named (Or.inr rfl) ht hat rfl, parameters_nil]
      rfl

/-- **Calls through a pointer** are read like direct calls, or fail for the same kind of
    reason, unless their arguments are blank: such parentheses go on with the name, like the
    signature of a function type, and no more than `()` is taken off it again. -/
theorem call_alike_iff {number : Nat} (name : PlainName) (hT : tokensOf T number = .ok [t])
    (ht : TypeText.isType t.text = true) (ha : tokenizeAll a = .ok ts)
    (hparts : ∀ part ∈ splitCommas ts, 2 ≤ part.length) :
    ∃ pointer direct, tokensOf (callText T '%' name.text a) number = .ok pointer ∧
      tokensOf (callText T '@' name.text a) number = .ok direct ∧
      ∀ line : Line, CalledAlike name.text (Instruction.call { line with tokens := pointer })
          (Instruction.call { line with tokens := direct }) ↔
        StarsFirst T ∨ a = [] ∨ ts ≠ [] := by
  obtain ⟨ps, hps, hone⟩ := exists_pieces_of_type (tokensOf_eq_ok.1 hT) ht
  obtain ⟨horder, htokenize⟩ : (cut a).2 = none ∧ tokenize a = .ok ts := by
    obtain ⟨qs, hqs, rfl⟩ := tokenizeAll_eq_ok.1 ha
    exact ⟨hqs.order, hqs.tokenize⟩
  by_cases hstars : StarsFirst T
  · -- there is no word `call` in either line
    obtain ⟨more, rest, hmore, hpointer⟩ :=
      tokenize_callText_stars (Or.inl rfl) hps hone name horder htokenize hstars
    obtain ⟨more', rest', hmore', hdirect⟩ :=
      tokenize_callText_stars (Or.inr rfl) hps hone name horder htokenize hstars
    refine ⟨_, _, tokensOf_eq_ok.2 hpointer, tokensOf_eq_ok.2 hdirect, fun line => ?_⟩
    rw [call_of_more hmore rfl, call_of_more hmore' rfl]
    exact iff_of_true (.failed _ _ rfl rfl rfl rfl) (Or.inl hstars)
  have hpointer := tokenize_callText_pointer hps hone name horder htokenize hstars
  have hdirect := tokenize_callText_direct hps hone name horder htokenize hstars
  have hsignature := isSignature_arguments_iff htokenize hparts
  refine ⟨_, _, tokensOf_eq_ok.2 hpointer, tokensOf_eq_ok.2 hdirect, fun line => ?_⟩
  by_cases hempty : ts = []
  · subst hempty
    rw [if_pos (hsignature.2 rfl), calledAlike_blank_iff name ht htokenize]
    simp [hstars]
  · rw [if_neg (mt hsignature.1 hempty)]
    exact iff_of_true (calledAlike_named name ht _ line) (Or.inr (Or.inr hempty))

/-- The pointer is called with a number and a pointer. -/
theorem call_alike_iff_of_arguments :
    let name : PlainName := ⟨"f", by decide, List.all_eq_true.1 (by decide)⟩
    let a : Text := "i32 1, i8* %p"
    let ts := [word "i32", word "1", separator, word "i8*", word "%p"]
    tokensOf "i32" 3 = .ok [word "i32"] ∧ TypeText.isType (word "i32").text = true ∧
      tokenizeAll a = .ok ts ∧ (∀ part ∈ splitCommas ts, 2 ≤ part.length) ∧
      ∃ pointer direct, tokensOf (callText "i32" '%' name.text a) 3 = .ok pointer ∧
        tokensOf (callText "i32" '@' name.text a) 3 = .ok direct ∧
        ∀ line : Line, CalledAlike name.text (Instruction.call { line with tokens := pointer })
            (Instruction.call { line with tokens := direct }) ↔
          StarsFirst "i32" ∨ a = [] ∨ ts ≠ [] := by
  intro name a ts
  have hT : tokensOf "i32" 3 = .ok [word "i32"] :=
    tokensOf_eq_ok.2 (pieces_word (by simp) (plainChars_of_all (by decide))).tokenize
  have hpieces : Pieces a ts :=
    ⟨by decide, .cons (.word rfl) (.cons (.word rfl) (.cons .comma (.cons (.word rfl)
      (.cons (.word rfl) .nil))))⟩
  have ha : tokenizeAll a = .ok ts := tokenizeAll_eq_ok.2 ⟨ts, hpieces, by decide⟩
  have ht : TypeText.isType (word "i32").text = true := by decide
  have hparts : ∀ part ∈ splitCommas ts, 2 ≤ part.length := by decide
  exact ⟨hT, ht, ha, hparts, call_alike_iff name hT ht ha hparts⟩

/-- The pointer is called with a blank between the parentheses. -/
theorem not_calledAlike_of_blank :
    let name : PlainName := ⟨"f", by decide, List.all_eq_true.1 (by decide)⟩
    tokensOf "void" 1 = .ok [word "void"] ∧ tokenizeAll [' '] = .ok [] ∧
      ∃ pointer direct, tokensOf (callText "void" '%' name.text [' ']) 1 = .ok pointer ∧
        tokensOf (callText "void" '@' name.text [' ']) 1 = .ok direct ∧
        ∀ line : Line,
          ¬ CalledAlike name.text (Instruction.call { line with tokens := pointer })
            (Instruction.call { line with tokens := direct }) := by
  intro name
  have hT : Pieces "void" [word "void"] :=
    pieces_word (by simp) (plainChars_of_all (by decide))
  have ha : Pieces [' '] [] := (pieces_blank_iff (Or.inl rfl)).2 pieces_nil
  have hstars : ¬ StarsFirst "void" := by
    rw [starsFirst_iff hT]
    rintro ⟨p, hp, hall⟩
    obtain rfl : word "void" = p := Option.some.inj hp
    exact absurd (hall 'v' List.mem_cons_self) (by decide)
  have hpointer := tokenize_callText_pointer hT rfl name ha.order ha.tokenize hstars
  have hdirect := tokenize_callText_direct hT rfl name ha.order ha.tokenize hstars
  rw [if_pos (by decide)] at hpointer
  refine ⟨tokensOf_eq_ok.2 hT.tokenize, tokenizeAll_eq_ok.2 ⟨[], ha, rfl⟩, _, _,
    tokensOf_eq_ok.2 hpointer, tokensOf_eq_ok.2 hdirect, fun line => ?_⟩
  rw [show arrange [] = [] from rfl, calledAlike_blank_iff name (by decide) ha.tokenize]
  decide

end

end LlvmAsm
