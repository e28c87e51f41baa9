/-
  Phi nodes and their spelling.

  `PhiLine` is the assignment of a phi with one edge or more. Its reader takes every group in
  brackets for an edge, from the type to the comment, and where the comment begins is told by
  the tokens: a semicolon that stars go on with is none (`StarsFirst`).

  * `PhiLine.yields_text`: the tokens of a line;
  * `PhiLine.result_ofLines`: the listing of a line, whatever follows its edges;
  * `Listing.ofLines_phi`: a line has its edges, and a comment adds none iff it has no group
    in brackets before what the reader takes for the comment.
-/
import LlvmAsm.Proofs.Arithmetic
import LlvmAsm.Proofs.Body
import LlvmAsm.Proofs.Parameter

namespace LlvmAsm

open Reading Scan Token

/-! ## Lines -/

/-- A plain name or an integer. -/
inductive PlainValue where
  | name (isLocal : Bool) (plain : PlainName)
  | int (literal : IntLiteral)

/-- The value among all those that operands may have. -/
def PlainValue.ident : PlainValue → Ident
  | name isLocal plain => .symbol ⟨isLocal, .plain plain⟩
  | int literal => .int literal

/-- The text of a value. -/
def PlainValue.text (v : PlainValue) : Text := v.ident.text

/-- An edge: a value, and the label of the block that it comes from. -/
structure PhiEdge where
  value : PlainValue
  label : PlainName

/-- The assignment of a phi. -/
structure PhiLine where
  name : PlainName
  ty : Ty
  first : PhiEdge
  rest : List PhiEdge

namespace PhiEdge

variable (e : PhiEdge)

/-- The text between the brackets of an edge. -/
def inside : Text := ' ' :: (e.value.text ++ ',' :: ' ' :: '%' :: e.label.text ++ [' '])

/-- The text of an edge. -/
def print : Text := '[' :: e.inside ++ [']']

/-- The tokens between the brackets of an edge. -/
def inner : List Token := [word e.value.text, separator, word ('%' :: e.label.text)]

/-- The token of an edge. -/
def token : Token := group e.print .bracket e.inner

/-- The edge that is meant, with a value of the given type. -/
def meant (T : Ty) (e : PhiEdge) : Incoming :=
  ⟨'%' :: e.label.text, .scalar T.print e.value.text false⟩

end PhiEdge

namespace PhiLine

variable (p : PhiLine)

/-- The edges of a phi. -/
def edges : List PhiEdge := p.first :: p.rest

/-- The text of a line. -/
def text : Text :=
  ' ' :: ' ' :: '%' :: (p.name.text ++ ' ' :: '=' :: ' ' :: 'p' :: 'h' :: 'i' :: ' ' ::
    (p.ty.print ++ ' ' :: commaList (p.edges.map PhiEdge.print)))

/-- The tokens on the right-hand side. -/
def valueTokens : List Token :=
  word "phi" :: p.ty.token ::
    List.intercalate [separator] (p.edges.map fun e => [e.token])

/-- The tokens of a line. -/
def tokens : List Token := word ('%' :: p.name.text) :: word "=" :: p.valueTokens

/-- The node of a phi on the line with the given number, with more edges than its own. -/
def nodeWith (number : Nat) (more : List Incoming) : Node :=
  ⟨number, some ('%' :: p.name.text), true,
    .phi p.ty.print (p.edges.map (PhiEdge.meant p.ty) ++ more)⟩

/-- The node of a phi. -/
def node (number : Nat) : Node := p.nodeWith number []

end PhiLine

/-! ## The tokens of a line -/

theorem PlainValue.yields_text (v : PlainValue) : Yields v.text [word v.text] := by
  cases v with
  | name isLocal plain =>
    cases isLocal with
    | true => exact plain.yields_local
    | false => exact plain.yields_symbol
  | int literal => exact literal.yields_text

theorem PhiEdge.yields_print (e : PhiEdge) : Yields e.print [e.token] := by
  have hlabel : Yields ('%' :: e.label.text ++ [' ']) [word ('%' :: e.label.text)] := by
    simpa using e.label.yields_local.append_blank yields_nil
  have hvalue := e.value.yields_text.append (Or.inr (Or.inr (Or.inl rfl))) hlabel.blank.comma
  have hinside : Yields e.inside e.inner := by simpa [inside, inner] using hvalue.blank
  exact hinside.group rfl (by decide) rfl (List.forall_mem_nil _)

namespace PhiLine

variable (p : PhiLine)

theorem yields_text : Yields p.text p.tokens := by
  have hequals : Yields "=" [word "="] :=
    Initializer.yields_keyword (w := "=") (c := '=') rfl (by decide) (by decide) (by decide)
  have hphi : Yields "phi" [word "phi"] :=
    Initializer.yields_keyword (w := "phi") (c := 'p') rfl (by decide) (by decide) (by decide)
  have hedges : Yields (commaList (p.edges.map PhiEdge.print))
      (List.intercalate [separator] (p.edges.map fun e => [e.token])) := by
    apply yields_commaList
    rw [List.forall₂_map_left_iff, List.forall₂_map_right_iff]
    exact List.forall₂_same.2 fun e _ => e.yields_print
  have hvalue := hphi.append_blank (p.ty.yields.append_blank hedges)
  exact (p.name.yields_local.append_blank (hequals.append_blank hvalue)).blanks 2

/-- No token begins a comment, and none is an open brace. -/
theorem settled_tokens : ∀ t ∈ p.tokens, t.Settled ∧ t.isComment = false := by
  have hsettled : ∀ {t : Token}, t.IsContent → t.Settled ∧ t.isComment = false :=
    fun h => ⟨h.settled, h.inSegment.2⟩
  have hname : (word ('%' :: p.name.text)).IsContent :=
    isContent_word List.mem_cons_self (by decide)
  have hty := hsettled p.ty.isContent_token
  have hedges : ∀ t ∈ List.intercalate [separator] (p.edges.map fun e => [e.token]),
      t.Settled ∧ t.isComment = false := by
    refine forall_mem_intercalate ⟨rfl, rfl⟩ fun ts hts => ?_
    obtain ⟨e, -, rfl⟩ := List.mem_map.1 hts
    exact List.forall_mem_singleton.2 (hsettled (isContent_group _ _ _))
  exact List.forall_mem_cons.2 ⟨hsettled hname, List.forall_mem_cons.2 ⟨⟨rfl, rfl⟩,
    List.forall_mem_cons.2 ⟨⟨rfl, rfl⟩, List.forall_mem_cons.2 ⟨hty, hedges⟩⟩⟩⟩

end PhiLine

/-! ## The edges of a line -/

/-- The groups in brackets before the comment. -/
def bracketGroups (ts : List Token) : List (List Token) :=
  (beforeComment ts).filterMap (Token.innerOf? .bracket)

/-- A value behind a type is read as it is. -/
theorem result_operand_ident (line : Line) (T : Ty) (v : Ident) :
    (operand line [T.token, word v.text]).result = .ok (.scalar T.print v.text false) := by
  have hty : IsOperandType T.token := by
    apply IsOperandType.of_isType
    rw [T.text_token]
    exact Or.inr T.isType_print
  obtain ⟨w, hw⟩ := v.exists_valueWord
  rw [← hw, Instruction.operand_typed hty, T.text_token]
  show Except.ok (Operand.scalar T.print (Literal.normal w.text) false) = _
  rw [hw, v.normal_text]

namespace Instruction

variable (line : Line) (T : Ty)

/-- An edge is read from the tokens between its brackets. -/
theorem result_incoming_cons (e : PhiEdge) (more : List (List Token)) :
    (incoming line T.token (e.inner :: more)).result =
      (incoming line T.token more).result.map (e.meant T :: ·) := by
  have hword : (word e.value.text).isSeparator = false := e.value.ident.isSeparator_word
  have hlabel : (word ('%' :: e.label.text)).isSeparator = false := by
    simp [isSeparator, isWord]
  have hsplit : splitCommas e.inner = [[word e.value.text], [word ('%' :: e.label.text)]] := by
    have hparts : ∀ part ∈ [[word e.value.text], [word ('%' :: e.label.text)]],
        part ≠ [] ∧ ∀ t ∈ part, t.isSeparator = false := by
      simp [hword, hlabel]
    exact splitCommas_intercalate hparts
  rw [incoming, hsplit]
  dsimp only
  have hvalue : (operand line [T.token, word e.value.text]).result =
      .ok (.scalar T.print e.value.text false) := result_operand_ident line T e.value.ident
  rw [result_bind_ok hvalue]
  simp only [result_bind]
  cases (incoming line T.token more).result <;> rfl

theorem result_incoming_append (es : List PhiEdge) (more : List (List Token)) :
    (incoming line T.token (es.map PhiEdge.inner ++ more)).result =
      (incoming line T.token more).result.map (es.map (PhiEdge.meant T) ++ ·) := by
  induction es with
  | nil =>
    rw [List.map_nil, List.nil_append]
    cases (incoming line T.token more).result <;> rfl
  | cons e es ih =>
    rw [List.map_cons, List.cons_append, result_incoming_cons, ih]
    cases (incoming line T.token more).result <;> rfl

/-- There are as many edges as groups. -/
theorem length_of_incoming {ty : Token} {groups : List (List Token)} {es : List Incoming}
    (h : (incoming line ty groups).result = .ok es) : es.length = groups.length := by
  induction groups generalizing es with
  | nil =>
    cases h
    rfl
  | cons inner groups ih =>
    rw [incoming] at h
    split at h
    · obtain ⟨value, -, h⟩ := exists_of_bind_ok h
      obtain ⟨rest, hrest, h⟩ := exists_of_bind_ok h
      cases h
      rw [List.length_cons, List.length_cons, ih hrest]
    · cases h

end Instruction

namespace PhiLine

variable (p : PhiLine) {tail : List Token}

theorem filterMap_edges (es : List PhiEdge) :
    (List.intercalate [separator] (es.map fun e => [e.token])).filterMap
      (Token.innerOf? .bracket) = es.map PhiEdge.inner := by
  induction es with
  | nil => rfl
  | cons e es ih =>
    cases es with
    | nil => rfl
    | cons e' es =>
      have hcons : List.intercalate [separator] ((e :: e' :: es).map fun e => [e.token]) =
          e.token :: separator ::
            List.intercalate [separator] ((e' :: es).map fun e => [e.token]) :=
        List.intercalate_cons_cons ..
      rw [hcons]
      exact congrArg (e.inner :: ·) ih

/-- The groups of a line are those of its edges and those of what follows them. -/
theorem bracketGroups_edges (tail : List Token) :
    bracketGroups ((p.valueTokens ++ tail).drop 2) =
      p.edges.map PhiEdge.inner ++ bracketGroups tail := by
  have hplain : ∀ t ∈ p.valueTokens.drop 2, (!t.isComment) = true := by
    intro t ht
    have hmem : t ∈ p.tokens :=
      List.mem_cons_of_mem _ (List.mem_cons_of_mem _ (List.mem_of_mem_drop ht))
    simp [(p.settled_tokens t hmem).2]
  have hdrop : (p.valueTokens ++ tail).drop 2 = p.valueTokens.drop 2 ++ tail := rfl
  rw [bracketGroups, beforeComment, hdrop, List.takeWhile_append_of_pos hplain,
    List.filterMap_append]
  exact congrArg (· ++ _) (filterMap_edges p.edges)

/-- The right-hand side of a line, with more tokens behind it. -/
def valueLine (number : Nat) (tail : List Token) : Line :=
  ⟨render (p.valueTokens ++ tail), number, .continuation, p.valueTokens ++ tail⟩

/-- The edges that are read from the tokens behind a line. -/
def moreEdges (number : Nat) (tail : List Token) : Reading (List Incoming) :=
  Instruction.incoming (p.valueLine number tail) p.ty.token (bracketGroups tail)

theorem result_phi (number : Nat) (tail : List Token) :
    (Instruction.phi (p.valueLine number tail)).result =
      (p.moreEdges number tail).result.map fun more => ⟨number, none, false,
        .phi p.ty.print (p.edges.map (PhiEdge.meant p.ty) ++ more)⟩ := by
  have hread : Instruction.phi (p.valueLine number tail) = do
      let edges ← Instruction.incoming (p.valueLine number tail) p.ty.token
        (bracketGroups ((p.valueTokens ++ tail).drop 2))
      note p.ty.token.text
      return ⟨number, none, false, .phi p.ty.token.text edges⟩ := rfl
  rw [hread, p.bracketGroups_edges, result_bind, Instruction.result_incoming_append,
    p.ty.text_token, ← moreEdges]
  cases (p.moreEdges number tail).result <;> rfl

/-- There is an edge behind the type. -/
theorem exists_valueTokens :
    ∃ rest, p.valueTokens = word "phi" :: p.ty.token :: p.first.token :: rest := by
  obtain ⟨name, ty, first, rest⟩ := p
  cases rest with
  | nil => exact ⟨_, rfl⟩
  | cons e es => exact ⟨_, congrArg (word "phi" :: ty.token :: ·) (List.intercalate_cons_cons ..)⟩

theorem ofLine_phi (number : Nat) (tail : List Token) :
    Category.ofLine (p.valueLine number tail) = .ok .phi := by
  have hload : p.ty.token.text ≠ ['l', 'o', 'a', 'd'] := by
    intro h
    have htype := p.ty.isType_print
    rw [← p.ty.text_token, h] at htype
    exact absurd htype (by decide)
  have hword : (word ['p', 'h', 'i']).text = ['p', 'h', 'i'] := rfl
  have hphi : ['p', 'h', 'i'] ∉ Vocabulary.operations := by decide
  obtain ⟨rest, hrest⟩ := p.exists_valueTokens
  rw [Category.ofLine_eq_ok, valueLine, hrest]
  simp [Category.all, Category.suits, Category.indent?, Category.fits, Category.leads,
    Category.begins, Category.textAt, hload, hphi, hword]

/-! ## The node of a line -/

section
variable {u : Text} {tail : List Token}

/-- A line opens no table, whatever follows it. -/
theorem outline_text (u : Text) (base : Nat) :
    (Outline.ofLines false base [p.text ++ u]).result = .ok ⟨[⟨p.text ++ u, base + 1⟩], []⟩ := by
  have hblank : isBlank '%' = false := by decide
  apply Outline.ofLines_single
  · simp [text, Text.allBlank, hblank]
  · simp [text, opensTable, Text.afterSpaces?, Text.startsWith, Text.after?]

/-- **The listing of a line** with more tokens behind it: every group in brackets among them
    is read for an edge as well, up to the comment. -/
theorem result_ofLines (h : tokenize (p.text ++ u) = .ok (p.tokens ++ tail)) (base : Nat) :
    (Listing.ofLines false base [p.text ++ u]).result =
      (p.moreEdges (base + 1) tail).result.map
        fun more => ⟨[p.nodeWith (base + 1) more], []⟩ := by
  have hindent : Text.indent (p.text ++ u) = .statement := by
    simp [Text.indent, text, Indent.ofBlanks]
  have hline : Line.ofText (p.text ++ u) (base + 1) =
      .ok ⟨(p.text ++ u).trim, base + 1, .statement, p.tokens ++ tail⟩ :=
    Statement.ofText_eq_ok h hindent
  have hname : ('%' :: p.name.text).head? = some '%' := rfl
  have hvalue : p.valueTokens ++ tail ≠ [] := List.cons_ne_nil _ _
  have hassign := Category.ofLine_assignment hname hvalue (p.text ++ u).trim (base + 1)
  have hsplit := Statement.splitAssignment_eq_ok hname (p.text ++ u).trim (base + 1)
    (p.valueTokens ++ tail)
  have hphi := Statement.result_of_assignment hassign hsplit (p.ofLine_phi (base + 1) tail) rfl
  rw [← valueLine, p.result_phi] at hphi
  rw [Listing.result_of_single (p.outline_text u base), Statement.result_ofText hline]
  -- the node of the right-hand side is given the name of the line
  refine (congrArg _ hphi).trans ?_
  cases (p.moreEdges (base + 1) tail).result <;> rfl

/-- A line has its node iff no group behind it is taken for an edge. -/
theorem result_ofLines_eq_node_iff (h : tokenize (p.text ++ u) = .ok (p.tokens ++ tail))
    (base : Nat) :
    (Listing.ofLines false base [p.text ++ u]).result = .ok ⟨[p.node (base + 1)], []⟩ ↔
      bracketGroups tail = [] := by
  rw [p.result_ofLines h, ← result_map]
  constructor
  · intro hnode
    obtain ⟨more, hmore, heq⟩ := exists_of_map_ok hnode
    have hnil : more = [] := by simpa [nodeWith, node] using heq
    have hlength := Instruction.length_of_incoming _ hmore
    rw [hnil] at hlength
    exact List.eq_nil_of_length_eq_zero hlength.symm
  · intro hnone
    rw [moreEdges, hnone]
    rfl

end

/-! ## Comments behind a line -/

theorem semicolon_not_mem_text : ';' ∉ p.text := by
  have hname : ∀ name : PlainName, ';' ∉ name.text := fun name => name.not_mem_text (by decide)
  have hvalue : ∀ v : PlainValue, ';' ∉ v.text := by
    rintro (⟨isLocal, plain⟩ | literal)
    · cases isLocal <;>
        simp [PlainValue.text, PlainValue.ident, Ident.text, Symbol.text, SymbolName.text, hname]
    · intro hmem
      exact absurd (literal.isNameChar_of_mem hmem) (by decide)
  have hedges : ';' ∉ commaList (p.edges.map PhiEdge.print) := by
    refine not_mem_commaList (by decide) fun t ht => ?_
    obtain ⟨e, -, rfl⟩ := List.mem_map.1 ht
    simp [PhiEdge.print, PhiEdge.inside, hname, hvalue]
  have hty : ';' ∉ p.ty.print := p.ty.not_mem_print (by decide) (by decide)
  simp [text, hname, hty, hedges]

/-- A comment behind a line has the tokens that it has by itself. -/
theorem tokenize_comment (c : Text) :
    ∃ tail, tokenize (';' :: ' ' :: c) = .ok tail ∧
      tokenize (p.text ++ " ; " ++ c) = .ok (p.tokens ++ tail) :=
  p.yields_text.tokenize_comment p.semicolon_not_mem_text (fun t ht => (p.settled_tokens t ht).1) c

/-- A comment that does not begin with stars is one for the reader as well. -/
theorem bracketGroups_comment {c : Text} {tail : List Token} (hc : ¬ StarsFirst c)
    (h : tokenize (';' :: ' ' :: c) = .ok tail) : bracketGroups tail = [] := by
  obtain ⟨more, rest, htokens, hmore⟩ := tokenize_semicolon c
  obtain rfl := hmore.2 hc
  obtain rfl := Except.ok.inj (h.symm.trans htokens)
  rfl

end PhiLine

/-- **Phis keep their edges.** A line with a phi has one node, which is assigned to its name
    and has the type and the edges of the line, in order. With a comment behind it the line
    has the same node iff the comment, read by itself, has no group in brackets before what
    the reader takes for a comment; there is none if the comment does not begin with stars. -/
theorem Listing.ofLines_phi (p : PhiLine) (base : Nat) :
    (Listing.ofLines false base [p.text]).result = .ok ⟨[p.node (base + 1)], []⟩ ∧
      ∀ c : Text,
        (¬ StarsFirst c → (Listing.ofLines false base [p.text ++ " ; " ++ c]).result =
          .ok ⟨[p.node (base + 1)], []⟩) ∧
        ∃ tail, tokensOf (';' :: ' ' :: c) (base + 1) = .ok tail ∧
          ((Listing.ofLines false base [p.text ++ " ; " ++ c]).result =
            .ok ⟨[p.node (base + 1)], []⟩ ↔ bracketGroups tail = []) := by
  constructor
  · have htokens : tokenize (p.text ++ []) = .ok (p.tokens ++ []) := by
      rw [List.append_nil, List.append_nil, p.yields_text.tokenize]
    have := (p.result_ofLines_eq_node_iff htokens base).2 rfl
    rwa [List.append_nil] at this
  · intro c
    obtain ⟨tail, htail, htokens⟩ := p.tokenize_comment c
    rw [List.append_assoc] at htokens
    have hiff := p.result_ofLines_eq_node_iff htokens base
    rw [← List.append_assoc] at hiff
    refine ⟨fun hc => hiff.2 (PhiLine.bracketGroups_comment hc htail), tail, ?_, hiff⟩
    exact tokensOf_eq_ok.2 htail

/-- A comment that begins with a star, and is not in order. -/
theorem Listing.ofLines_phi_of_stray :
    let name (t : Text) (h : t ≠ [] ∧ t.all isNameChar = true) : PlainName :=
      ⟨t, h.1, List.all_eq_true.1 h.2⟩
    let zero : PlainValue := .int ⟨false, "0", by decide, List.all_eq_true.1 (by decide)⟩
    let p : PhiLine := ⟨name "x" (by decide), .int 32, ⟨zero, name "a" (by decide)⟩, []⟩
    let c : Text := "* [ 1, %b )"
    ¬ StarsFirst c ∧
      (Listing.ofLines false 0 [p.text ++ " ; " ++ c]).result = .ok ⟨[p.node 1], []⟩ := by
  intro name zero p c
  have hc : ¬ StarsFirst c := by
    rintro ⟨first, rest, hfirst, -⟩
    exact absurd hfirst.order (by decide)
  exact ⟨hc, ((Listing.ofLines_phi p 0).2 c).1 hc⟩

/-- The brackets of a comment that begins with a star are taken for an edge. -/
theorem Listing.phi_edge_of_comment :
    let name (t : Text) (h : t ≠ [] ∧ t.all isNameChar = true) : PlainName :=
      ⟨t, h.1, List.all_eq_true.1 h.2⟩
    let zero : PlainValue := .int ⟨false, "0", by decide, List.all_eq_true.1 (by decide)⟩
    let p : PhiLine := ⟨name "x" (by decide), .int 32, ⟨zero, name "a" (by decide)⟩, []⟩
    p.text = "  %x = phi i32 [ 0, %a ]".toList ∧
      (Listing.ofLines false 0 [p.text ++ " ; " ++ "* [ 1, %b ]"]).result =
        .ok ⟨[p.nodeWith 1 [⟨"%b", .scalar "i32" "1" false⟩]], []⟩ ∧
      (Listing.ofLines false 0 [p.text ++ " ; " ++ "* [ 1, %b ]"]).result ≠
        .ok ⟨[p.node 1], []⟩ := by
  intro name zero p
  refine ⟨by decide, ?_, ?_⟩ <;> decide +kernel

end LlvmAsm
