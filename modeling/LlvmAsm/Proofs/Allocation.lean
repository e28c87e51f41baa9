/-
  Comments behind an allocation.

  The number of elements that an `alloca` asks for is the token in a fixed place, if the token
  before it is a type of numbers. Where the statement ends before that place, the place is in
  the comment.

  * `countOfComment?` is the token of a comment that is taken for the number of elements;
  * `allocatedNum_commented`: a comment changes the number of elements to that token, and not
    at all if there is none;
  * `alloca_commented_iff`: the statement has the same node with the comment iff that token
    happens to be the number of elements without it.
-/
import LlvmAsm.Proofs.Commented
import LlvmAsm.Module

namespace LlvmAsm.Instruction

open Reading

/-- The node of an `alloca` for elements of a type. -/
def allocaNode (number : Nat) (ty count : Text) : Node :=
  ⟨number, none, false, .alloca (TypeText.pointerTo ty) ty count⟩

/-- The token that is taken for the number of elements because of the comment: a token of the
    comment, if the statement consists of the word `alloca` and a type, or the semicolon, if a
    comma and a type follow. -/
def countOfComment? : List Token → List Token → Option Token
  | [_, _], ty :: count :: _ => if TypeText.isNumber ty.text then some count else none
  | [_, _, _, ty], _ => if TypeText.isNumber ty.text then some Token.semicolon else none
  | _, _ => none

/-- There is one element where the comment can tell otherwise. -/
theorem allocatedNum_of_countOfComment? {ts comment : List Token} {t : Token}
    (h : countOfComment? ts comment = some t) : allocatedNum ts = "1" := by
  match ts with
  | [] | [_] | [_, _, _] | [_, _] | [_, _, _, _] => rfl
  | _ :: _ :: _ :: _ :: _ :: _ => simp [countOfComment?] at h

/-- **The number of elements** with a comment behind the statement. -/
theorem allocatedNum_commented {ts : List Token} (h : 2 ≤ ts.length) (comment : List Token) :
    allocatedNum (ts ++ Token.semicolon :: comment) =
      ((countOfComment? ts comment).map Token.text).getD (allocatedNum ts) := by
  match ts with
  | [] | [_] => simp at h
  | [_, _] =>
    match comment with
    | [] | [_] => rfl
    | ty :: count :: _ =>
      cases hty : TypeText.isNumber ty.text <;> simp [allocatedNum, countOfComment?, hty]
  | [_, _, _] =>
    have hsemicolon : TypeText.isNumber Token.semicolon.text = false := by decide
    cases comment <;> simp [allocatedNum, countOfComment?, hsemicolon]
  | [_, _, _, ty] =>
    cases hty : TypeText.isNumber ty.text <;> simp [allocatedNum, countOfComment?, hty]
  | _ :: _ :: _ :: _ :: _ :: _ => simp [allocatedNum, countOfComment?]

/-- The run of an `alloca` that has a type. -/
theorem run_alloca (line : Line) (word ty : Token) (rest : List Token) (known : Registry) :
    (Statement.ofCategory .alloca { line with tokens := word :: ty :: rest }).run known =
      (.ok (some (allocaNode line.number ty.text (allocatedNum (word :: ty :: rest)))),
        known.note ty.text) := rfl

/-- An `alloca` has a node only if it has a type. -/
theorem exists_type_of_alloca {line : Line} {node : Option Node} {known known' : Registry}
    (h : (Statement.ofCategory .alloca line).run known = (.ok node, known')) :
    ∃ word ty rest, line.tokens = word :: ty :: rest := by
  obtain ⟨text, number, indent, tokens⟩ := line
  match tokens with
  | [] | [_] => cases (Prod.mk.inj h).1
  | word :: ty :: rest => exact ⟨word, ty, rest, rfl⟩

/-- **Comments behind an allocation.** Let a semicolon and any tokens follow the tokens of an
    `alloca` that has a node. It still has one, with the same types and the same space, but
    for the number of elements, which may be a token of the comment. So the node is the same
    iff there is no such token, or it is the number one. -/
theorem alloca_commented_iff (line : Line) {ts : List Token} {node : Node}
    {known known' : Registry}
    (h : (Statement.ofCategory .alloca { line with tokens := ts }).run known =
      (.ok (some node), known')) (comment : List Token) :
    let commented := (Statement.ofCategory .alloca
      { line with tokens := ts ++ Token.semicolon :: comment }).run known
    ∃ ty count, node = allocaNode line.number ty count ∧
      commented = (.ok (some (allocaNode line.number ty
        (((countOfComment? ts comment).map Token.text).getD count))), known') ∧
      (commented = (.ok (some node), known') ↔
        ∀ t ∈ countOfComment? ts comment, t.text = "1") := by
  obtain ⟨word, ty, rest, rfl⟩ : ∃ word ty rest, ts = word :: ty :: rest :=
    exists_type_of_alloca h
  rw [run_alloca] at h
  obtain ⟨hnode, rfl⟩ := Prod.mk.inj h
  obtain rfl := Option.some.inj (Except.ok.inj hnode)
  have hlength : 2 ≤ (word :: ty :: rest).length := Nat.le_add_left 2 rest.length
  have hcount := allocatedNum_commented hlength comment
  intro commented
  have hcommented : commented = (.ok (some (allocaNode line.number ty.text
      (((countOfComment? (word :: ty :: rest) comment).map Token.text).getD
        (allocatedNum (word :: ty :: rest))))), known.note ty.text) := by
    rw [← hcount]
    rfl
  refine ⟨ty.text, _, rfl, hcommented, ?_⟩
  rw [hcommented]
  cases hread : countOfComment? (word :: ty :: rest) comment with
  | none => simp
  | some t =>
    rw [allocatedNum_of_countOfComment? hread]
    simp [allocaNode]

/-- A number of elements before a comment that begins with another one. -/
theorem alloca_commented_iff_of_count :
    let ts : List Token :=
      [.word "alloca", .word "i8", Token.separator, .word "i32", .word "%n"]
    let comment : List Token := [.word "i32", .word "7"]
    let line : Line := ⟨"alloca i8, i32 %n ; i32 7", 3, .continuation, ts⟩
    let node := allocaNode 3 "i8" "%n"
    (Statement.ofCategory .alloca line).run .empty = (.ok (some node), ⟨["i8"]⟩) ∧
      (∀ t ∈ countOfComment? ts comment, t.text = "1") ∧
      (Statement.ofCategory .alloca
        { line with tokens := ts ++ Token.semicolon :: comment }).run .empty =
          (.ok (some node), ⟨["i8"]⟩) := by
  intro ts comment line node
  have hrun : (Statement.ofCategory .alloca line).run .empty =
      (.ok (some node), ⟨["i8"]⟩) := by decide
  have hcount : ∀ t ∈ countOfComment? ts comment, t.text = "1" := by simp [countOfComment?, ts]
  obtain ⟨ty, count, -, -, hiff⟩ := alloca_commented_iff line hrun comment
  exact ⟨hrun, hcount, hiff.2 hcount⟩

/-- A comment that begins with a type and a number changes the space. -/
theorem count_of_comment :
    let node (count : Text) : Node :=
      ⟨1, some "%x".toList, true, .alloca "i32*" "i32" count⟩
    (Listing.ofLines false 0 ["  %x = alloca i32"]).result = .ok ⟨[node "1"], []⟩ ∧
      (Listing.ofLines false 0 ["  %x = alloca i32 ; i32 5 times"]).result =
        .ok ⟨[node "5"], []⟩ ∧
      (Listing.ofLines false 0 ["  %x = alloca i32 ; i32 5 times"]).result ≠
        (Listing.ofLines false 0 ["  %x = alloca i32"]).result := by
  intro node
  refine ⟨?_, ?_, ?_⟩ <;> decide +kernel

end LlvmAsm.Instruction
