/-
  Every type is one token.

  `Ty.token` is the token of a type: a word, or a group of the tokens of its
  members, with its stars and its signatures joined to it. The text of the type has
  this token and no other, whatever stands before it (`Ty.yields_print`); so types in
  a list are the tokens of the list (`tokensOf_types`).
-/
import LlvmAsm.Line.Message
import LlvmAsm.Proofs.Token.Yield
import LlvmAsm.Proofs.Type.Grammar

namespace LlvmAsm

open Token

/-! ## Lists of tokens -/

section
variable {ts : List Token}

theorem render_intersperse (h : ∀ t ∈ ts, t.isSeparator = false) :
    render (ts.intersperse separator) = commaList (ts.map text) := by
  induction ts with
  | nil => rfl
  | cons t ts ih =>
    cases ts with
    | nil => simp [render]
    | cons u us =>
      obtain ⟨-, hts⟩ := List.forall_mem_cons.1 h
      have hu : u.spaced = ' ' :: u.text := by simp [spaced, hts u List.mem_cons_self]
      have hrest : ((u :: us).intersperse separator).flatMap spaced =
          ' ' :: commaList ((u :: us).map text) := by
        rw [← ih hts]
        cases us <;> simp [render, hu]
      rw [List.intersperse_cons_cons, render, List.flatMap_cons, hrest]
      exact (commaList_cons_cons t.text u.text (us.map text)).symm

theorem splitCommas_intersperse (h : ∀ t ∈ ts, t.isSeparator = false) :
    splitCommas (ts.intersperse separator) = ts.map ([·]) := by
  have hsplit : ∀ t ts, (∀ u ∈ t :: ts, u.isSeparator = false) →
      splitWhere isSeparator ((t :: ts).intersperse separator) = (t :: ts).map ([·]) := by
    intro t ts
    induction ts generalizing t with
    | nil => simp [splitWhere]
    | cons u us ih =>
      intro h
      obtain ⟨ht, hts⟩ := List.forall_mem_cons.1 h
      have hseparator : separator.isSeparator = true := rfl
      rw [List.intersperse_cons_cons, splitWhere, if_neg (by simp [ht]), splitWhere,
        if_pos hseparator, ih u hts]
      rfl
  cases ts with
  | nil => rfl
  | cons t ts =>
    rw [← hsplit t ts h]
    cases ts <;> rfl

/-- Types and ellipses in parentheses make a signature. -/
theorem isSignature_of_types (h : ∀ t ∈ ts, t.isSeparator = false)
    (htypes : ∀ t ∈ ts, TypeText.isType t.text = true ∨ t = word ellipsis) (args : Text) :
    (group ('(' :: args ++ [')']) .paren (ts.intersperse separator)).isSignature = true := by
  have hbare : TypeText.bare ('(' :: args ++ [')']) = '(' :: args ++ [')'] :=
    TypeText.bare_of_getLast? (by rw [List.getLast?_concat]; decide)
  have hclose : Text.endsWith ('(' :: args ++ [')']) ")" = true := Text.endsWith_append _ _
  have htext : (group ('(' :: args ++ [')']) .paren (ts.intersperse separator)).text =
      '(' :: args ++ [')'] := rfl
  have hinner : (group ('(' :: args ++ [')']) .paren (ts.intersperse separator)).inner? =
      some (ts.intersperse separator) := rfl
  simp only [isSignature, htext, hbare, hclose, hinner, splitCommas_intersperse h, Bool.and_eq_true,
    Bool.or_eq_true, List.all_eq_true]
  refine ⟨by simp, Or.inr fun part hpart => ?_⟩
  obtain ⟨t, ht, rfl⟩ := List.mem_map.1 hpart
  rcases htypes t ht with htype | rfl
  · simp [htype]
  · simp [Token.is, text, ellipsis]

end

namespace Ty

mutual

/-- The token of a type. -/
def token : Ty → Token
  | void => word "void"
  | int bits => word ('i' :: Text.ofNat bits)
  | float kind => word kind.print
  | named name => word ('%' :: name.text)
  | array length element =>
    group (array length element).print .bracket [word (Text.ofNat length), word "x", element.token]
  | struct packed first rest =>
    let braces := group (struct false first rest).print .brace
      ((first.token :: tokenAll rest).intersperse separator)
    if packed then group (struct true first rest).print .angle [braces] else braces
  | pointer target => target.token.append ['*']
  | functionPointer result params variadic =>
    let args := commaList (argList ellipsis variadic (printAll params))
    result.token.append (' ' :: ('(' :: args ++ [')', '*']))

/-- The tokens of types. -/
def tokenAll : List Ty → List Token
  | [] => []
  | T :: Ts => T.token :: tokenAll Ts

end

theorem tokenAll_eq_map (Ts : List Ty) : tokenAll Ts = Ts.map token := by
  induction Ts with
  | nil => rfl
  | cons T Ts ih => rw [tokenAll, ih, List.map_cons]

theorem text_token (T : Ty) : T.token.text = T.print := by
  induction T using Ty.induction with
  | void | int | float | named | array => rfl
  | struct packed => cases packed <;> rfl
  | pointer target ih => simp [token, print, ih]
  | functionPointer result params variadic ih => simp [token, print, ih]

theorem token_isSeparator (T : Ty) : T.token.isSeparator = false := by
  have hlength := T.two_le_length_print
  rw [← text_token] at hlength
  rw [Bool.eq_false_iff]
  intro h
  rw [isWord_iff.1 h] at hlength
  exact absurd hlength (by decide)

theorem settled_token (T : Ty) : T.token.Settled := by
  have hlength := T.two_le_length_print
  rw [← text_token] at hlength
  rw [Settled, Bool.eq_false_iff]
  intro h
  rw [isWord_iff.1 h] at hlength
  exact absurd hlength (by decide)

end Ty

/-! ## Words -/

section
variable {c : Char}

theorem plainChar_of_isDigit (h : isDigit c = true) : PlainChar c :=
  plainChar_of_class (by decide) h

theorem plainChar_of_isNameChar (h : isNameChar c = true) : PlainChar c :=
  plainChar_of_class (by decide) h

theorem not_mem_ofNat (h : isDigit c = false) (n : Nat) : c ∉ Text.ofNat n := by
  intro hc
  rw [Text.isDigit_of_mem_ofNat hc] at h
  cases h

theorem yields_ofNat (n : Nat) : Yields (Text.ofNat n) [word (Text.ofNat n)] := by
  obtain ⟨c, digits, hcons⟩ := List.exists_cons_of_ne_nil (Text.ofNat_ne_nil n)
  have hhead : (Text.ofNat n).head? = some c := by rw [hcons]; rfl
  have hc : c ∉ ['"', '*', '('] :=
    not_mem_of_class (by decide) (Text.isDigit_of_mem_ofNat (List.mem_of_head? hhead))
  have := yields_word hhead hc (fun _ hd => plainChar_of_isDigit (Text.isDigit_of_mem_ofNat hd))
    (not_mem_ofNat (by decide) n) (List.forall_mem_nil _)
  simpa using this

/-- A name with a sigil, and stars or not. -/
theorem PlainName.yields_sigil (name : PlainName) (h : c = '%' ∨ c = '@') {stars : Text}
    (hstars : ∀ c ∈ stars, c = '*') :
    Yields (c :: name.text ++ stars) [(word (c :: name.text)).append stars] := by
  have hsigil : PlainChar c ∧ c ∉ ['"', '*', '('] ∧ '}' ≠ c := by
    rcases h with rfl | rfl <;> decide
  have hplain : ∀ d ∈ c :: name.text, PlainChar d := List.forall_mem_cons.2
    ⟨hsigil.1, fun d hd => plainChar_of_isNameChar (name.plain d hd)⟩
  have hbrace : '}' ∉ c :: name.text :=
    List.not_mem_cons_of_ne_of_not_mem hsigil.2.2 (name.not_mem_text (by decide))
  exact yields_word rfl hsigil.2.1 hplain hbrace hstars

end

/-! ## The texts of types -/

namespace Ty

variable {stars : Text}

theorem yields_all {Ts : List Ty} (h : ∀ T ∈ Ts, Yields T.print [T.token]) :
    List.Forall₂ (fun t a => Yields t [a]) (printAll Ts) (tokenAll Ts) := by
  rw [printAll_eq_map, tokenAll_eq_map, List.forall₂_map_left_iff, List.forall₂_map_right_iff]
  exact List.forall₂_same.2 h

theorem yields_ellipsis : Yields ellipsis [word ellipsis] := by
  have := yields_word (w := ellipsis) (c := '.') rfl (by decide) (plainChars_of_all (by decide))
    (by decide) (List.forall_mem_nil _)
  simpa using this

theorem isSeparator_of_mem_tokenAll (Ts : List Ty) : ∀ t ∈ tokenAll Ts, t.isSeparator = false := by
  intro t ht
  rw [tokenAll_eq_map] at ht
  obtain ⟨T, -, rfl⟩ := List.mem_map.1 ht
  exact T.token_isSeparator

theorem isType_of_mem_tokenAll (Ts : List Ty) :
    ∀ t ∈ tokenAll Ts, TypeText.isType t.text = true ∨ t = word ellipsis := by
  intro t ht
  rw [tokenAll_eq_map] at ht
  obtain ⟨T, -, rfl⟩ := List.mem_map.1 ht
  rw [text_token]
  exact Or.inl T.isType_print

theorem settled_of_mem_list (Ts : List Ty) :
    ∀ t ∈ (tokenAll Ts).intersperse separator, t.Settled := by
  induction Ts with
  | nil => simp [tokenAll]
  | cons T Ts ih =>
    cases Ts with
    | nil => simpa [tokenAll] using T.settled_token
    | cons T' Ts =>
      rw [tokenAll, tokenAll, List.intersperse_cons_cons]
      exact List.forall_mem_cons.2 ⟨T.settled_token, List.forall_mem_cons.2 ⟨rfl, ih⟩⟩

/-- The members of a structure between braces are the structure. -/
theorem braceGroup_members (first : Ty) (rest : List Ty) (stars : Text) :
    braceGroup ((tokenAll (first :: rest)).intersperse separator) stars =
      (struct false first rest).token.append stars := by
  have htexts : (tokenAll (first :: rest)).map Token.text = printAll (first :: rest) := by
    rw [tokenAll_eq_map, printAll_eq_map, List.map_map]
    exact List.map_congr_left fun T _ => T.text_token
  have hrender := render_intersperse (isSeparator_of_mem_tokenAll (first :: rest))
  rw [htexts] at hrender
  have hne : ((tokenAll (first :: rest)).intersperse separator).isEmpty = false := by
    rw [tokenAll]
    cases tokenAll rest <;> rfl
  simp only [braceGroup, hne, hrender]
  simp [token, print, printAll, tokenAll, Token.append]

theorem yields_struct {first : Ty} {rest : List Ty}
    (h : ∀ T ∈ first :: rest, Yields T.print [T.token]) (packed : Bool)
    (hstars : ∀ c ∈ stars, c = '*') :
    Yields ((struct packed first rest).print ++ stars)
      [(struct packed first rest).token.append stars] := by
  have hmembers : Yields (commaList (printAll (first :: rest)))
      ((tokenAll (first :: rest)).intersperse separator) := yields_intercalate 1 (yields_all h)
  have hbraces : ∀ {stars : Text}, (∀ c ∈ stars, c = '*') →
      Yields ((struct false first rest).print ++ stars)
        [(struct false first rest).token.append stars] := by
    intro stars hstars
    have := hmembers.braces (settled_of_mem_list (first :: rest)) hstars
    rw [braceGroup_members] at this
    simpa [print, printAll] using this
  cases packed with
  | false => exact hbraces hstars
  | true =>
    have hinside : Yields (struct false first rest).print [(struct false first rest).token] := by
      simpa using hbraces (List.forall_mem_nil _)
    have hgroup : Yields ('<' :: (struct false first rest).print ++ '>' :: stars) _ :=
      hinside.group rfl (by decide) rfl hstars
    simpa [print, token, Token.append] using hgroup

theorem yields_functionPointer {result : Ty} {params : List Ty}
    (hresult : Yields result.print [result.token])
    (hparams : ∀ T ∈ params, Yields T.print [T.token]) (variadic : Bool)
    (hstars : ∀ c ∈ stars, c = '*') :
    Yields ((functionPointer result params variadic).print ++ stars)
      [(functionPointer result params variadic).token.append stars] := by
  have hargs : Yields (commaList (argList ellipsis variadic (printAll params)))
      ((argList (word ellipsis) variadic (tokenAll params)).intersperse separator) :=
    yields_intercalate 1 (forall₂_argList (yields_all hparams) yields_ellipsis variadic)
  have hsignature := isSignature_of_types
    (forall_mem_argList (isSeparator_of_mem_tokenAll params) (by decide) variadic)
    (forall_mem_argList (isType_of_mem_tokenAll params) (Or.inr rfl) variadic)
    (commaList (argList ellipsis variadic (printAll params)))
  have htype : TypeText.isType result.token.text = true := by
    rw [text_token]
    exact isType_print result
  have hmore : ∀ c ∈ '*' :: stars, c = '*' := List.forall_mem_cons.2 ⟨rfl, hstars⟩
  have := hresult.signature result.token_isSeparator htype hargs hsignature hmore
  simpa [print, token, append_append] using this

/-- **A type with stars has its token with the stars**, whatever is before it. The
    induction is on the type; the stars of a pointer are those of its target. -/
theorem yields_print (T : Ty) (hstars : ∀ c ∈ stars, c = '*') :
    Yields (T.print ++ stars) [T.token.append stars] := by
  induction T using Ty.induction generalizing stars with
  | void =>
    exact yields_word (c := 'v') rfl (by decide) (plainChars_of_all (by decide)) (by decide) hstars
  | int bits =>
    have hplain : ∀ c ∈ 'i' :: Text.ofNat bits, PlainChar c := List.forall_mem_cons.2
      ⟨by decide, fun _ hc => plainChar_of_isDigit (Text.isDigit_of_mem_ofNat hc)⟩
    have hbrace : '}' ∉ 'i' :: Text.ofNat bits := by
      simpa using not_mem_ofNat (c := '}') (by decide) bits
    exact yields_word (c := 'i') rfl (by decide) hplain hbrace hstars
  | float kind =>
    cases kind
    all_goals exact yields_word rfl (by decide) (plainChars_of_all (by decide)) (by decide) hstars
  | named name => exact name.yields_sigil (c := '%') (by decide) hstars
  | array length element ih =>
    have helement : Yields element.print [element.token] := by
      simpa using ih (List.forall_mem_nil _)
    have htimes : Yields "x" [word "x"] := by
      have := yields_word (w := ['x']) rfl (by decide) (plainChars_of_all (by decide)) (by decide)
        (List.forall_mem_nil _)
      simpa using this
    have hinside := (yields_ofNat length).append_blank (htimes.append_blank helement)
    have hgroup : Yields ('[' :: (Text.ofNat length ++ ' ' :: (['x'] ++ ' ' :: element.print)) ++
        ']' :: stars) _ := hinside.group rfl (by decide) rfl hstars
    simpa [print, token, Token.append] using hgroup
  | struct packed first rest hfirst hrest =>
    refine yields_struct (List.forall_mem_cons.2 ⟨?_, fun T hT => ?_⟩) packed hstars
    · simpa using hfirst (List.forall_mem_nil _)
    · simpa using hrest T hT (List.forall_mem_nil _)
  | pointer target ih =>
    have hmore : ∀ c ∈ '*' :: stars, c = '*' := List.forall_mem_cons.2 ⟨rfl, hstars⟩
    simpa [print, token, append_append] using ih hmore
  | functionPointer result params variadic hresult hparams =>
    refine yields_functionPointer ?_ (fun T hT => ?_) variadic hstars
    · simpa using hresult (List.forall_mem_nil _)
    · simpa using hparams T hT (List.forall_mem_nil _)

end Ty

/-- **Every type is one token**: the text of a type has the token of the type and
    no other, and it spells a type. The texts of types in a list, with a comma and
    any number of blanks between them, have the tokens of the types with separators
    between them. -/
theorem tokensOf_types (number : Nat) :
    (∀ T : Ty, tokensOf T.print number = .ok [T.token] ∧ T.token.text = T.print ∧
      TypeText.isType T.print = true) ∧
    ∀ (Ts : List Ty) (blanks : Nat),
      tokensOf (List.intercalate (',' :: List.replicate blanks ' ') (Ts.map Ty.print)) number =
        .ok ((Ts.map Ty.token).intersperse separator) := by
  have hyields : ∀ T : Ty, Yields T.print [T.token] := fun T => by
    simpa using T.yields_print (List.forall_mem_nil _)
  refine ⟨fun T => ⟨tokensOf_eq_ok.2 (hyields T).tokenize, T.text_token, T.isType_print⟩,
    fun Ts blanks => ?_⟩
  have hall := Ty.yields_all fun T (_ : T ∈ Ts) => hyields T
  rw [Ty.printAll_eq_map, Ty.tokenAll_eq_map] at hall
  exact tokensOf_eq_ok.2 (yields_intercalate blanks hall).tokenize

end LlvmAsm
