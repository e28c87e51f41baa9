/-
  Arithmetic and comparisons: what they add to the registry.

  A binary operation names the type of its operands once, before the first one. The second
  operand has no type of its own, and so its reader asks whether its text spells a type.
  The name of a local value does (`ValueWord.isType_text`), and is noted as a type then.
  The node does not show it, since all operands take the type of the result in the end:
  `Instruction.operation_adds_iff` says which names are added.
-/
import LlvmAsm.Proofs.Registry
import LlvmAsm.Proofs.Value

namespace LlvmAsm

open Reading

/-- The operations on two operands of one type. -/
def Vocabulary.binary : List Text :=
  Vocabulary.arithmetic ++ Vocabulary.comparisons ++ Vocabulary.bitwise

/-- A token that may stand for the type of an operation. -/
structure IsOperandType (ty : Token) : Prop where
  inSegment : ty.InSegment
  not_expression : ty.isExpression = false
  not_flag : ty.isOneOf Vocabulary.overflowFlags = false

/-- Every group and every word that spells a type may stand there. -/
theorem IsOperandType.of_isType {ty : Token}
    (h : ty.isGroup = true ∨ TypeText.isType ty.text = true) : IsOperandType ty := by
  cases ty with
  | group text e inner => exact ⟨(Token.isContent_group text e inner).inSegment, rfl, rfl⟩
  | word w =>
    have hw : TypeText.isType w = true := h.resolve_left Bool.false_ne_true
    have hne : ∀ ws : List Text, (∀ v ∈ ws, TypeText.isType v = false) → w ∉ ws := by
      intro ws hws hmem
      rw [hws w hmem] at hw
      cases hw
    refine ⟨Token.inSegment_word (hne _ (by decide)), ?_, ?_⟩
    · have hexpression : w ∉ Vocabulary.expressions := hne _ (by decide)
      simpa [Token.isExpression, Token.isOneOf] using hexpression
    · have hflag : w ∉ Vocabulary.overflowFlags := hne _ (by decide)
      simpa [Token.isOneOf] using hflag

namespace Instruction

/-- What stands between the word of an operation and its type: the relation, if it is a
    comparison. -/
def relationOf (op relation : Text) : Option Text :=
  if Vocabulary.comparisons.contains op then some relation else none

/-- The tokens of `op [relation] T x, y`. -/
def binaryTokens (op relation : Text) (ty : Token) (x y : ValueWord) : List Token :=
  .word op :: (relationOf op relation).toList.map .word ++
    [ty, .word x.text, Token.separator, .word y.text]

section
variable {line : Line} {op relation : Text} {ty : Token} {x y : ValueWord}

/-- The second operand is noted as a type if its text spells one. -/
theorem operand_word (line : Line) (v : ValueWord) :
    (operand line [.word v.text]).noted = (if v.isLocal then [v.text] else []) ∧
      ∃ ty, (operand line [.word v.text]).result =
        .ok (.scalar ty (Literal.normal v.text) false) := by
  rw [operand]
  cases hlocal : v.isLocal with
  | false =>
    rw [if_neg (by simp [Token.text, v.isType_text, hlocal])]
    exact ⟨rfl, _, rfl⟩
  | true =>
    have hnormal : Literal.normal v.text = v.text := by
      cases v with
      | symbol s => exact s.normal_text
      | keyword | numeral => cases hlocal
    rw [if_pos (by simp [Token.text, v.isType_text, hlocal]), hnormal]
    exact ⟨rfl, _, rfl⟩

/-- The operands of an operation are a type with a value, and a value. -/
theorem segments_binary (hty : IsOperandType ty) :
    segments [ty, .word x.text, Token.separator, .word y.text] =
      [[ty, .word x.text], [.word y.text]] := by
  have h : ∀ ts ∈ [[ty, Token.word x.text], [Token.word y.text]],
      ts ≠ [] ∧ ∀ t ∈ ts, t.InSegment := by
    simp [hty.inSegment, x.inSegment_word, y.inSegment_word]
  exact segments_intercalate h

theorem operand_typed (hty : IsOperandType ty) :
    operand line [ty, .word x.text] = do
      note ty.text
      return .scalar ty.text (Literal.normal x.text) false := by
  rw [operand_value rfl, hty.not_expression, x.isExpression_word]
  rfl

theorem operands_binary (hty : IsOperandType ty) :
    operands line [[ty, .word x.text], [.word y.text]] = do
      note ty.text
      let second ← operand line [.word y.text]
      return [.scalar ty.text (Literal.normal x.text) false, second] := by
  rw [operands, operand_typed hty, operands, operands]
  simp only [bind_assoc, pure_bind]

/-- No word before the type is an overflow flag. -/
theorem dropWordsAt_binary (hrelation : relation ∉ Vocabulary.overflowFlags)
    (hty : IsOperandType ty) :
    dropWordsAt Vocabulary.overflowFlags 1 (binaryTokens op relation ty x y) =
      binaryTokens op relation ty x y := by
  have hword : (Token.word relation).isOneOf Vocabulary.overflowFlags = false := by
    simpa [Token.isOneOf] using hrelation
  unfold binaryTokens relationOf dropWordsAt
  split
  · exact congrArg (Token.word op :: ·) (List.dropWhile_cons_of_neg (by simp [hword]))
  · exact congrArg (Token.word op :: ·) (List.dropWhile_cons_of_neg (by simp [hty.not_flag]))

/-- The type of a binary operation is that of its first operand. -/
theorem resultType_binary (hop : op ∈ Vocabulary.binary) (tokens : List Token)
    (ty ident : Text) (byVal : Bool) (rest : List Operand) :
    resultType line tokens op (.scalar ty ident byVal :: rest) = pure ty := by
  have hne : ∀ w ∈ Vocabulary.binary, w ∉ (["select", "inttoptr", "ptrtoint"] : List Text) := by
    decide
  have hother := hne op hop
  simp only [List.mem_cons, List.not_mem_nil, or_false, not_or] at hother
  rw [resultType, if_neg hother.1, if_neg (not_or.2 ⟨hother.2.1, hother.2.2⟩), typeOfOperand,
    List.getElem?_cons_zero]
  rfl

/-- What it is to read the operands of a binary operation. -/
theorem operands_then_binary (hop : op ∈ Vocabulary.binary) (hty : IsOperandType ty)
    (tokens : List Token) (variant : Option Text) :
    (do
      let params ← operands line
        ((segments [ty, .word x.text, Token.separator, .word y.text]).filter (!·.isEmpty))
      let result ← resultType line tokens op params
      note result
      return ⟨line.number, none, false,
        .operation op variant result (params.map (·.withType result))⟩) =
    (do
      note ty.text
      let second ← operand line [.word y.text]
      note ty.text
      return ⟨line.number, none, false, .operation op variant ty.text
        [.scalar ty.text (Literal.normal x.text) false, second.withType ty.text]⟩ :
      Reading Node) := by
  rw [segments_binary hty, List.filter_eq_self.2 (by simp), operands_binary hty]
  simp only [bind_assoc, pure_bind, resultType_binary hop]
  rfl

/-- What it is to read a binary operation. -/
theorem operation_eq (hop : op ∈ Vocabulary.binary)
    (hrelation : relation ∉ Vocabulary.overflowFlags) (hty : IsOperandType ty)
    (hline : line.tokens = binaryTokens op relation ty x y) :
    operation line = do
      note ty.text
      let second ← operand line [.word y.text]
      note ty.text
      return ⟨line.number, none, false, .operation op (relationOf op relation) ty.text
        [.scalar ty.text (Literal.normal x.text) false, second.withType ty.text]⟩ := by
  have hoperation : textAt line line.tokens 0 = pure op := by
    rw [hline]
    rfl
  rw [← operands_then_binary hop hty
    (.word op :: [ty, .word x.text, Token.separator, .word y.text]),
    operation, hoperation]
  simp only [pure_bind, hline, dropWordsAt_binary hrelation hty]
  cases hcomparison : Vocabulary.comparisons.contains op with
  | true =>
    have hrelation : textAt line (binaryTokens op relation ty x y) 1 = pure relation := by
      rw [binaryTokens, relationOf, if_pos hcomparison]
      rfl
    rw [if_pos rfl, hrelation, binaryTokens, relationOf, if_pos hcomparison]
    rfl
  | false =>
    rw [if_neg (by decide), binaryTokens, relationOf, if_neg (by rw [hcomparison]; decide)]
    rfl

/-- Every binary operation has a node, and notes the second operand if its text spells a
    type. -/
theorem reads_binary (hop : op ∈ Vocabulary.binary)
    (hrelation : relation ∉ Vocabulary.overflowFlags) (hty : IsOperandType ty)
    (hline : line.tokens = binaryTokens op relation ty x y) :
    (operation line).result =
        .ok ⟨line.number, none, false, .operation op (relationOf op relation) ty.text
          [.scalar ty.text (Literal.normal x.text) false,
            .scalar ty.text (Literal.normal y.text) false]⟩ ∧
      (operation line).noted = ty.text :: ((if y.isLocal then [y.text] else []) ++ [ty.text]) := by
  obtain ⟨hnoted, written, hsecond⟩ := operand_word line y
  have hnote : (note ty.text).result = .ok () := rfl
  rw [operation_eq hop hrelation hty hline]
  constructor
  · rw [result_bind_ok hnote, result_bind_ok hsecond, result_bind_ok hnote]
    rfl
  · rw [noted_bind_ok hnote, noted_bind_ok hsecond, noted_bind_ok hnote, hnoted]
    rfl

/-- The names after a binary operation. The name of a local value may always be entered. -/
theorem mem_names_binary (hop : op ∈ Vocabulary.binary)
    (hrelation : relation ∉ Vocabulary.overflowFlags) (hty : IsOperandType ty)
    (hline : line.tokens = binaryTokens op relation ty x y) (known : Registry) (name : Text) :
    name ∈ (known.learn (operation line).noted).names ↔ name ∈ known.names ∨
      name = ty.text ∧ Registry.Enters ty.text ∨ name = y.text ∧ y.isLocal = true := by
  have henters : Registry.Enters y.text := by
    have hwords : y.text ∉ [[], TypeText.unknown] := y.not_mem (by decide)
    simpa [Registry.Enters] using hwords
  have hnoted : name ∈ (operation line).noted ↔
      name = ty.text ∨ name = y.text ∧ y.isLocal = true := by
    rw [(reads_binary hop hrelation hty hline).2]
    cases y.isLocal <;> simp [or_comm]
  rw [Registry.mem_names_learn, hnoted]
  constructor
  · rintro (hknown | ⟨rfl | hname, hname'⟩)
    · exact Or.inl hknown
    · exact Or.inr (Or.inl ⟨rfl, hname'⟩)
    · exact Or.inr (Or.inr hname)
  · rintro (hknown | ⟨rfl, hname'⟩ | ⟨rfl, hlocal⟩)
    · exact Or.inl hknown
    · exact Or.inr ⟨Or.inl rfl, hname'⟩
    · exact Or.inr ⟨Or.inr ⟨rfl, hlocal⟩, henters⟩

end

/-- **What a binary operation adds to the registry.** Every binary operation on two names
    or literals has a node. Besides the type of the operands, it adds the name of a local
    value that stands as the second operand, and nothing else; so only the type is added
    exactly if there is no such name, or it is known already or spelled like the type. -/
theorem operation_adds_iff {op relation : Text} {ty : Token} {line : Line} {x y : ValueWord}
    (hop : op ∈ Vocabulary.binary) (hrelation : relation ∉ Vocabulary.overflowFlags)
    (hty : IsOperandType ty) (hline : line.tokens = binaryTokens op relation ty x y)
    (known : Registry) :
    let after := (Statement.ofCategory .operation line).run known
    after.1 = .ok (some ⟨line.number, none, false, .operation op (relationOf op relation) ty.text
      [.scalar ty.text (Literal.normal x.text) false,
        .scalar ty.text (Literal.normal y.text) false]⟩) ∧
    (∀ name, name ∈ after.2.names ↔ name ∈ known.names ∨
      name = ty.text ∧ Registry.Enters ty.text ∨ name = y.text ∧ y.isLocal = true) ∧
    ((∀ name ∈ after.2.names, name ∈ known.names ∨ name = ty.text) ↔
      (y.isLocal = true → y.text ∈ known.names ∨ y.text = ty.text)) := by
  intro after
  have hafter : after = ((operation line).result.map some, known.learn (operation line).noted) :=
    run_map some (operation line) known
  have hadded : ∀ name, name ∈ after.2.names ↔ name ∈ known.names ∨
      name = ty.text ∧ Registry.Enters ty.text ∨ name = y.text ∧ y.isLocal = true := by
    rw [hafter]
    exact mem_names_binary hop hrelation hty hline known
  refine ⟨?_, hadded, ?_⟩
  · rw [hafter, (reads_binary hop hrelation hty hline).1]
    rfl
  · constructor
    · intro h hlocal
      exact h y.text ((hadded y.text).2 (Or.inr (Or.inr ⟨rfl, hlocal⟩)))
    · intro h name hname
      rcases (hadded name).1 hname with hknown | ⟨rfl, -⟩ | ⟨rfl, hlocal⟩
      · exact Or.inl hknown
      · exact Or.inr rfl
      · exact h hlocal

/-- A comparison of a local pointer with `null`: the type of the pointer is all that is
    added. -/
theorem operation_adds_iff_of_null :
    let p : ValueWord := .symbol ⟨true, .quoted ⟨"a pointer", by decide⟩⟩
    let null : ValueWord := .keyword ⟨"null", by decide⟩
    let line : Line := ⟨"icmp eq %S* %\"a pointer\", null", 7, .continuation,
      [.word "icmp", .word "eq", .word "%S*", .word "%\"a pointer\"", .word ",", .word "null"]⟩
    "icmp".toList ∈ Vocabulary.binary ∧ "eq".toList ∉ Vocabulary.overflowFlags ∧
      IsOperandType (.word "%S*") ∧ line.tokens = binaryTokens "icmp" "eq" (.word "%S*") p null ∧
      ((Statement.ofCategory .operation line).run ⟨["i8"]⟩).1 =
        .ok (some ⟨7, none, false, .operation "icmp" (some "eq".toList) "%S*"
          [.scalar "%S*" "%\"a pointer\"" false, .scalar "%S*" "0" false]⟩) ∧
      ∀ name ∈ ((Statement.ofCategory .operation line).run ⟨["i8"]⟩).2.names,
        name ∈ ["i8".toList] ∨ name = "%S*".toList := by
  intro p null line
  have hop : "icmp".toList ∈ Vocabulary.binary := by decide
  have hrelation : "eq".toList ∉ Vocabulary.overflowFlags := by decide
  have hty : IsOperandType (.word "%S*") := .of_isType (Or.inr (by decide))
  have hline : line.tokens = binaryTokens "icmp" "eq" (.word "%S*") p null := by decide
  obtain ⟨hnode, -, hadds⟩ := operation_adds_iff hop hrelation hty hline ⟨["i8"]⟩
  refine ⟨hop, hrelation, hty, hline, hnode.trans ?_, hadds.2 fun hlocal => ?_⟩
  · decide +kernel
  · cases hlocal

/-- The second operand of `add i32 %x, %y` is added to the types that are known. -/
theorem local_name_added :
    let line : Line := ⟨"add i32 %x, %y", 1, .continuation,
      [.word "add", .word "i32", .word "%x", .word ",", .word "%y"]⟩
    (Statement.ofCategory .operation line).run .empty =
        (.ok (some ⟨1, none, false, .operation "add" none "i32"
          [.scalar "i32" "%x" false, .scalar "i32" "%y" false]⟩), ⟨["i32", "%y"]⟩) ∧
      ¬∀ name ∈ ((Statement.ofCategory .operation line).run .empty).2.names,
        name ∈ Registry.empty.names ∨ name = "i32".toList := by
  intro line
  have hrun : (Statement.ofCategory .operation line).run .empty =
      (.ok (some ⟨1, none, false, .operation "add" none "i32"
        [.scalar "i32" "%x" false, .scalar "i32" "%y" false]⟩), ⟨["i32", "%y"]⟩) := by
    decide +kernel
  refine ⟨hrun, fun h => ?_⟩
  rw [hrun] at h
  rcases h "%y" (by decide) with hknown | hty
  · cases hknown
  · cases hty

end Instruction

end LlvmAsm
