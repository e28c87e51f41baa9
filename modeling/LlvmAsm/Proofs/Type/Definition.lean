/-
  The definitions of types.

  The line `%S = type T` gives a type a name. The reader asks the token of the type whether it
  is a structure, and takes its members for the fields; any other type is its own only field.
  But the stars and the parameters behind a type are joined to its token, so a pointer to a
  structure has a token that is a structure as well.

  * `Ty.leading?` is the structure that the text of a type begins with;
  * `Ty.typeBody_token`: the members of that structure are read for the fields of the type;
  * `Listing.ofLines_structure`: the line of a structure has a node with its members;
  * `Listing.ofLines_pointer`: the line of a pointer has a node with the pointer for its only
    field iff what it points to does not begin with a structure.
-/
import LlvmAsm.Proofs.Argument
import LlvmAsm.Proofs.Body

namespace LlvmAsm

open Reading Token

/-! ## The fields of a token -/

namespace Definition

variable {text : Text} {inner : List Token}

theorem typeBody_brace (h : TypeText.isNumber text = false) :
    typeBody (group text .brace inner) = (fieldTypes inner, false) := by
  have hnumber : ¬TypeText.isNumber (group text .brace inner).text = true := by simp [Token.text, h]
  rw [typeBody.eq_def, if_neg hnumber]

theorem typeBody_packed (h : TypeText.isNumber text = false) (braces : Text) :
    typeBody (group text .angle [group braces .brace inner]) = (fieldTypes inner, true) := by
  have hnumber : ¬TypeText.isNumber (group text .angle [group braces .brace inner]).text = true := by
    simp [Token.text, h]
  rw [typeBody.eq_def, if_neg hnumber]
  rfl

/-- A word or a group in brackets is its own only field. -/
theorem typeBody_self {t : Token} (hother : t ≠ word "opaque")
    (ht : t.encloser? = none ∨ t.encloser? = some .bracket) : typeBody t = ([t.text], false) := by
  rw [typeBody.eq_def]
  split
  · rfl
  · cases t with
    | word w =>
      have hw : w ≠ "opaque" := fun heq => hother (congrArg word heq)
      exact if_neg hw
    | group text e inner =>
      obtain rfl : e = .bracket := by simpa [encloser?] using ht
      rfl

/-- Types between commas are the fields. -/
theorem fieldTypes_types (Ts : List Ty) :
    fieldTypes ((Ty.tokenAll Ts).intersperse separator) = Ts.map Ty.print := by
  rw [fieldTypes, splitCommas_intersperse (Ty.isSeparator_of_mem_tokenAll Ts),
    Ty.tokenAll_eq_map, List.map_map, List.map_map]
  refine List.map_congr_left fun T _ => ?_
  exact (render_singleton T.token).trans T.text_token

end Definition

theorem length_le_length_commaList {t : Text} {texts : List Text} (h : t ∈ texts) :
    t.length ≤ (commaList texts).length := by
  induction texts with
  | nil => cases h
  | cons u texts ih =>
    cases texts with
    | nil => rw [List.mem_singleton.1 h, commaList_singleton]
    | cons v texts =>
      rw [commaList_cons_cons, List.length_append]
      rcases List.mem_cons.1 h with rfl | h
      · exact Nat.le_add_right _ _
      · have := ih h
        simp only [List.length_cons] at *
        omega

@[simp] theorem Token.encloser?_append (t : Token) (more : Text) :
    (t.append more).encloser? = t.encloser? := by
  cases t <;> rfl

/-! ## Structures at the beginning of a type -/

/-- A structure of one member or more. -/
structure StructTy where
  packed : Bool
  first : Ty
  rest : List Ty

namespace StructTy

variable (S : StructTy)

/-- The structure as a type. -/
def ty : Ty := .struct S.packed S.first S.rest

/-- The texts of its members. -/
def fields : List Text := (S.first :: S.rest).map Ty.print

/-- The token of a structure has its members for fields, whatever is joined to it. -/
theorem typeBody_append (more : Text) :
    Definition.typeBody (S.ty.token.append more) = (S.fields, S.packed) := by
  have hnumber : ∀ c ∈ ['{', '<'], ∀ t : Text, TypeText.isNumber (c :: t) = false := by
    intro c hc t
    simp only [List.mem_cons, List.not_mem_nil, or_false] at hc
    rcases hc with rfl | rfl <;> simp [TypeText.isNumber, TypeText.isInteger, TypeText.floats]
  have hfields := Definition.fieldTypes_types (S.first :: S.rest)
  obtain ⟨packed, first, rest⟩ := S
  cases packed with
  | false =>
    refine (Definition.typeBody_brace ?_).trans (congrArg (·, false) hfields)
    exact hnumber '{' (by decide) _
  | true =>
    refine (Definition.typeBody_packed ?_ _).trans (congrArg (·, true) hfields)
    exact hnumber '<' (by decide) _

/-- The text of a structure is longer than that of a member. -/
theorem length_lt_of_mem_fields {t : Text} (h : t ∈ S.fields) : t.length < S.ty.print.length := by
  have hlist := length_le_length_commaList h
  have hprint : S.ty.print = if S.packed then
      '<' :: ('{' :: ' ' :: commaList S.fields ++ [' ', '}']) ++ ['>']
      else '{' :: ' ' :: commaList S.fields ++ [' ', '}'] := by
    rw [ty, Ty.print, Ty.printAll_eq_map]
    rfl
  rw [hprint]
  split <;> simp only [List.length_append, List.length_cons] <;> omega

end StructTy

namespace Ty

/-- The structure at the beginning of a type, which stars and parameters may follow. -/
def leading? : Ty → Option StructTy
  | struct packed first rest => some ⟨packed, first, rest⟩
  | pointer target => target.leading?
  | functionPointer result _ _ => result.leading?
  | void | int _ | float _ | named _ | array _ _ => none

/-- The fields that are read from a type, and whether they are packed. -/
def body (T : Ty) : List Text × Bool :=
  match T.leading? with
  | some S => (S.fields, S.packed)
  | none => ([T.print], false)

/-- What follows a structure is joined to its token. -/
theorem exists_token_of_leading? {T : Ty} {S : StructTy} (h : T.leading? = some S) :
    ∃ more, T.token = S.ty.token.append more := by
  induction T using Ty.induction with
  | void | int | float | named | array => cases h
  | struct packed first rest =>
    cases h
    exact ⟨[], (append_nil _).symm⟩
  | pointer target ih =>
    obtain ⟨more, hmore⟩ := ih h
    exact ⟨more ++ ['*'], by rw [token, hmore, append_append]⟩
  | functionPointer result params variadic ih =>
    obtain ⟨more, hmore⟩ := ih h
    exact ⟨_, by rw [token, hmore, append_append]⟩

/-- Other types are words or in brackets. -/
theorem encloser?_token_of_leading? {T : Ty} (h : T.leading? = none) :
    T.token.encloser? = none ∨ T.token.encloser? = some .bracket := by
  induction T using Ty.induction with
  | void | int | float | named => exact Or.inl rfl
  | array => exact Or.inr rfl
  | struct => cases h
  | pointer target ih => simpa [token] using ih h
  | functionPointer result params variadic ih => simpa [token] using ih h

/-- **The fields of a type** are the members of the structure at its beginning, if there is
    one, and else the type itself. -/
theorem typeBody_token (T : Ty) : Definition.typeBody T.token = T.body := by
  unfold body
  cases h : T.leading? with
  | some S =>
    obtain ⟨more, hmore⟩ := exists_token_of_leading? h
    rw [hmore, S.typeBody_append]
  | none =>
    have hother : T.token ≠ word "opaque" := T.token_ne_word (by decide)
    rw [Definition.typeBody_self hother (encloser?_token_of_leading? h), text_token]

/-- A structure at the beginning of a type is not longer than the type. -/
theorem length_le_of_leading? {T : Ty} {S : StructTy} (h : T.leading? = some S) :
    S.ty.print.length ≤ T.print.length := by
  obtain ⟨more, hmore⟩ := exists_token_of_leading? h
  rw [← text_token T, hmore, text_append, text_token, List.length_append]
  exact Nat.le_add_right _ _

/-- A type is its own only field iff it does not begin with a structure: no member of a
    structure is spelled like a type that begins with the structure. -/
theorem body_eq_self_iff (T : Ty) : T.body = ([T.print], false) ↔ T.leading? = none := by
  unfold body
  cases h : T.leading? with
  | none => exact iff_of_true rfl rfl
  | some S =>
    refine iff_of_false (fun heq => ?_) nofun
    have hmem : T.print ∈ S.fields := by
      rw [(Prod.mk.inj heq).1]
      exact List.mem_cons_self
    exact absurd (S.length_lt_of_mem_fields hmem) (Nat.not_lt.2 (length_le_of_leading? h))

end Ty

/-! ## Lines -/

namespace Definition

/-- The node of a type with the given fields, packed or not. -/
def typeNode (number : Nat) (name : PlainName) (body : List Text × Bool) : Node :=
  ⟨number, some ('%' :: name.text), false, .typeDefinition body.1 body.2⟩

/-- The line that gives a type a name. -/
def typeLine (name : PlainName) (T : Ty) : Text := '%' :: name.text ++ " = type " ++ T.print

/-- The tokens of the line. -/
def typeLineTokens (name : PlainName) (T : Ty) : List Token :=
  [word ('%' :: name.text), word "=", word "type", T.token]

variable (name : PlainName) (T : Ty)

theorem yields_typeLine : Yields (typeLine name T) (typeLineTokens name T) := by
  have hequals : Yields "=" [word "="] :=
    Initializer.yields_keyword (w := "=") (c := '=') rfl (by decide) (by decide) (by decide)
  have htype : Yields "type" [word "type"] :=
    Initializer.yields_keyword (w := "type") (c := 't') rfl (by decide) (by decide) (by decide)
  have := name.yields_local.append_blank (hequals.append_blank (htype.append_blank T.yields))
  simpa [typeLine, typeLineTokens] using this

/-- The line is read as the definition of the type. -/
theorem result_typeLine (number : Nat) :
    (Statement.ofLogicalLine ⟨typeLine name T, number⟩).result =
      .ok (some (typeNode number name T.body)) := by
  have hline : Line.ofText (typeLine name T) number =
      .ok ⟨(typeLine name T).trim, number, .topLevel, typeLineTokens name T⟩ := by
    rw [Line.ofText, tokensOf_eq_ok.2 (yields_typeLine name T).tokenize]
    rfl
  have hcategory : Category.ofLine
      ⟨(typeLine name T).trim, number, .topLevel, typeLineTokens name T⟩ = .ok .global :=
    Category.ofLine_global (Or.inl rfl) rfl rfl (List.cons_ne_nil _ _)
  rw [Statement.result_ofText hline, Statement.result_of_category hcategory (by decide),
    ← Ty.typeBody_token]
  rfl

end Definition

/-- The line of a type has one node. -/
theorem Listing.ofLines_typeLine (name : PlainName) (T : Ty) (deferred : Bool) (base : Nat) :
    (Listing.ofLines deferred base [Definition.typeLine name T]).result =
      .ok ⟨[Definition.typeNode (base + 1) name T.body], []⟩ := by
  have houtline : (Outline.ofLines deferred base [Definition.typeLine name T]).result =
      .ok ⟨[⟨Definition.typeLine name T, base + 1⟩], []⟩ :=
    Outline.ofLines_sigil (Or.inl rfl) deferred base _
  rw [Listing.result_of_single houtline, Definition.result_typeLine]
  rfl

/-- **Structures keep their members.** The line that gives a structure a name has one node,
    whose fields are the members in order, as they are spelled; and it tells whether they are
    packed. -/
theorem Listing.ofLines_structure (name : PlainName) (packed : Bool) (first : Ty)
    (rest : List Ty) (deferred : Bool) (base : Nat) :
    let members := (first :: rest).map Ty.print
    let braces := "\x7b " ++ commaList members ++ " \x7d"
    (Listing.ofLines deferred base ['%' :: name.text ++ " = type " ++
        if packed then '<' :: braces ++ ['>'] else braces]).result =
      .ok ⟨[⟨base + 1, some ('%' :: name.text), false, .typeDefinition members packed⟩], []⟩ := by
  intro members braces
  have hprint : (Ty.struct packed first rest).print =
      if packed then '<' :: braces ++ ['>'] else braces := by
    rw [Ty.print, Ty.printAll_eq_map]
    rfl
  rw [← hprint]
  exact Listing.ofLines_typeLine name (.struct packed first rest) deferred base

/-! ## Pointers -/

/-- What a pointer points to: a value of a type, or a function. -/
inductive Pointee where
  | value (T : Ty)
  | function (result : Ty) (params : List Ty) (variadic : Bool)

namespace Pointee

/-- The text of what a pointer points to. -/
def print : Pointee → Text
  | value T => T.print
  | function result params variadic =>
    result.print ++ " (" ++ commaList (argList ellipsis variadic (params.map Ty.print)) ++ ")"

/-- The structure at the beginning of that text. -/
def leading? : Pointee → Option StructTy
  | value T => T.leading?
  | function result _ _ => result.leading?

/-- The pointer. -/
def pointer : Pointee → Ty
  | value T => .pointer T
  | function result params variadic => .functionPointer result params variadic

theorem print_pointer (P : Pointee) : P.pointer.print = P.print ++ ['*'] := by
  cases P with
  | value T => rfl
  | function result params variadic => simp [pointer, print, Ty.print, Ty.printAll_eq_map]

theorem leading?_pointer (P : Pointee) : P.pointer.leading? = P.leading? := by
  cases P <;> rfl

end Pointee

/-- **Pointers and what they point to.** The line that gives a pointer a name has one node,
    and it has the pointer for its only field iff the text of what it points to does not
    begin with a structure. If it does, its fields are the members of that structure, which
    may be packed. -/
theorem Listing.ofLines_pointer (name : PlainName) (P : Pointee) (deferred : Bool)
    (base : Nat) :
    let text := P.print ++ ['*']
    let listing := (Listing.ofLines deferred base ['%' :: name.text ++ " = type " ++ text]).result
    let node := Definition.typeNode (base + 1) name
    listing = .ok ⟨[node ((P.leading?.map fun S => (S.fields, S.packed)).getD ([text], false))],
        []⟩ ∧
      (listing = .ok ⟨[node ([text], false)], []⟩ ↔ P.leading? = none) := by
  intro text listing node
  have hlisting : listing = .ok ⟨[node P.pointer.body], []⟩ := by
    have := Listing.ofLines_typeLine name P.pointer deferred base
    rwa [Definition.typeLine, P.print_pointer] at this
  have hbody : P.pointer.body =
      (P.leading?.map fun S => (S.fields, S.packed)).getD ([text], false) := by
    rw [Ty.body, P.leading?_pointer, P.print_pointer]
    cases P.leading? <;> rfl
  have hself : P.pointer.body = ([text], false) ↔ P.leading? = none := by
    rw [← P.leading?_pointer, ← Ty.body_eq_self_iff, P.print_pointer]
  rw [← hbody, ← hself]
  refine ⟨hlisting, ?_⟩
  rw [hlisting]
  simp [node, Definition.typeNode, Prod.ext_iff]

/-- A pointer to a structure is taken for the structure. -/
theorem Listing.members_of_pointer :
    let node (fields : List Text) : Node :=
      ⟨1, some "%P".toList, false, .typeDefinition fields false⟩
    let listing := Listing.ofLines false 0 ["%P = type \x7b i32, i8 \x7d*"]
    listing.result = .ok ⟨[node ["i32", "i8"]], []⟩ ∧
      listing.result ≠ .ok ⟨[node ["\x7b i32, i8 \x7d*"]], []⟩ := by
  intro node listing
  refine ⟨?_, ?_⟩ <;> decide +kernel

end LlvmAsm
