/-
  Types by byte.

  The signature of a function type can be found by the byte at which it begins. A text that
  is cut at a byte has no parts if the byte is past its end or inside of a character.

  * `cutByte?` cuts a text at a byte, and `signatureByte?` finds the byte before a signature;
  * `isType?` tells a type by such cuts, all of which have parts (`isType?_eq`).
-/
import LlvmAsm.Proofs.Token.Invariant
import LlvmAsm.Proofs.Value

namespace LlvmAsm.Positional

open TypeText

/-! ## Cutting a text -/

/-- The text before a byte and the text from it on. A character has to begin there if it is
    not the end of the text. -/
def cutByte? : Text → Nat → Option (Text × Text)
  | t, 0 => some ([], t)
  | [], _ + 1 => none
  | c :: t, n + 1 =>
    if c.utf8Size ≤ n + 1 then
      (cutByte? t (n + 1 - c.utf8Size)).map fun (before, after) => (c :: before, after)
    else none

/-- A text is cut between any two parts of it. -/
theorem cutByte?_append (before after : Text) :
    cutByte? (before ++ after) (Text.byteSize before) = some (before, after) := by
  induction before with
  | nil => exact cutByte?.eq_1 after
  | cons c before ih =>
    have hsize : Text.byteSize (c :: before) = c.utf8Size + Text.byteSize before := rfl
    obtain ⟨n, hn⟩ : ∃ n, Text.byteSize (c :: before) = n + 1 :=
      Nat.exists_eq_add_one_of_ne_zero (by have := c.utf8Size_pos; omega)
    have hrest : n + 1 - c.utf8Size = Text.byteSize before := by omega
    rw [hn, List.cons_append, cutByte?, if_pos (by omega), hrest, ih, Option.map_some]

/-! ## Types -/

/-- The first byte at which a blank and an opening parenthesis stand. -/
def signatureByte? : Text → Option Nat
  | [] => none
  | c :: t =>
    if c = ' ' ∧ t.head? = some '(' then some 0
    else (signatureByte? t).map (c.utf8Size + ·)

theorem signatureByte?_eq (t : Text) :
    signatureByte? t = (splitSignature? t).map fun (result, _) => Text.byteSize result := by
  induction t with
  | nil => rfl
  | cons c t ih =>
    rw [signatureByte?, splitSignature?]
    split
    · rfl
    · rw [ih, Option.map_map, Option.map_map]
      rfl

/-- The signature begins at the first blank before a parenthesis. -/
theorem splitSignature?_result {t result signature : Text}
    (h : splitSignature? t = some (result, signature)) :
    splitSignature? result = none ∧ signature.head? = some '(' := by
  induction t generalizing result with
  | nil => cases h
  | cons c t ih =>
    unfold splitSignature? at h
    split at h
    · rename_i hc
      cases h
      exact ⟨rfl, hc.2⟩
    · rename_i hc
      obtain ⟨⟨result', signature'⟩, hsplit, heq⟩ := Option.map_eq_some_iff.1 h
      cases heq
      obtain ⟨hnone, hhead⟩ := ih hsplit
      refine ⟨?_, hhead⟩
      have hc' : ¬ (c = ' ' ∧ result'.head? = some '(') := fun hc' => hc ⟨hc'.1, by
        rw [append_of_splitSignature? hsplit, List.head?_append, hc'.2]
        rfl⟩
      rw [splitSignature?, if_neg hc', hnone]
      rfl

/-- What ends in a closing parenthesis behind an opening one begins with that one. -/
theorem startsWith_bare {signature : Text} (hhead : signature.head? = some '(')
    (hend : Text.endsWith (bare signature) ")" = true) :
    Text.startsWith (bare signature) "(" = true := by
  obtain ⟨inside, hinside⟩ := Text.endsWith_iff.1 hend
  have hsplit : signature = bare signature ++ stars signature := (bare_append_stars signature).symm
  cases hbare : bare signature with
  | nil =>
    rw [hbare] at hinside
    cases inside <;> cases hinside
  | cons c t =>
    rw [hsplit, hbare, List.cons_append, List.head?_cons, Option.some.injEq] at hhead
    rw [hhead]
    exact Text.startsWith_append ['('] t

theorem length_of_cutByte? {ty : Text} {split : Nat} {parts : Text × Text}
    (hsplit : signatureByte? ty = some split) (hparts : cutByte? ty split = some parts) :
    parts.1.length < ty.length := by
  rw [signatureByte?_eq] at hsplit
  obtain ⟨⟨result, signature⟩, h, rfl⟩ := Option.map_eq_some_iff.1 hsplit
  rw [append_of_splitSignature? h, cutByte?_append] at hparts
  rw [append_of_splitSignature? h, ← Option.some.inj hparts]
  simp

/-- Tells whether a text spells a type. That of the result of a function is looked for in
    the same way. -/
def isType? (ty : Text) : Option Bool :=
  if isPlain ty then some true
  else match _hsplit : signatureByte? ty with
    | none => some false
    | some split =>
      match cutByte? ty (split + 1) with
      | none => none
      | some (_, signature) =>
        if Text.startsWith (bare signature) "(" && Text.endsWith (bare signature) ")" then
          match _hparts : cutByte? ty split with
          | none => none
          | some parts => isType? parts.1
        else some false
termination_by ty.length
decreasing_by exact length_of_cutByte? _hsplit _hparts

theorem isType?_of_no_signature {ty : Text} (h : splitSignature? ty = none) :
    isType? ty = some (isPlain ty) := by
  have hsplit : signatureByte? ty = none := by rw [signatureByte?_eq, h, Option.map_none]
  rw [isType?]
  split
  · rename_i hplain
    rw [hplain]
  · rename_i hplain
    split
    · rw [Bool.eq_false_iff.2 hplain]
    · rename_i hsome
      exact absurd (hsplit.symm.trans hsome) (Option.some_ne_none _).symm

/-- **A type is told in range**: the signature begins behind a single byte, and the result
    ends where the blank stands. -/
theorem isType?_eq (ty : Text) : isType? ty = some (isType ty) := by
  cases h : splitSignature? ty with
  | none => rw [isType?_of_no_signature h, isType, isFunction, h, Bool.or_false]
  | some parts =>
    obtain ⟨result, signature⟩ := parts
    obtain ⟨hresult, hhead⟩ := splitSignature?_result h
    have hsplit : signatureByte? ty = some (Text.byteSize result) := by
      rw [signatureByte?_eq, h, Option.map_some]
    have hty : ty = result ++ ' ' :: signature := append_of_splitSignature? h
    have hcut : cutByte? ty (Text.byteSize result) = some (result, ' ' :: signature) := by
      rw [hty, cutByte?_append]
    have hcut' : cutByte? ty (Text.byteSize result + 1) = some (result ++ [' '], signature) := by
      have hsize : Text.byteSize (result ++ [' ']) = Text.byteSize result + 1 :=
        Text.byteSize_append result [' ']
      rw [hty, List.append_cons, ← hsize, cutByte?_append]
    rw [isType?, isType, isFunction, h]
    split
    · rename_i hplain
      rw [hplain, Bool.true_or]
    rename_i hplain
    split
    · rename_i hnone
      exact absurd (hsplit.symm.trans hnone) (Option.some_ne_none _)
    rename_i split hsome
    obtain rfl := Option.some.inj (hsplit.symm.trans hsome)
    rw [hcut', Bool.eq_false_iff.2 hplain, Bool.false_or]
    dsimp only
    split
    · rename_i hsignature
      rw [(Bool.and_eq_true_iff.1 hsignature).2, Bool.true_and]
      split
      · rename_i hnone
        exact absurd (hcut.symm.trans hnone) (Option.some_ne_none _)
      · rename_i parts hparts
        obtain rfl := Option.some.inj (hcut.symm.trans hparts)
        exact isType?_of_no_signature hresult
    · rename_i hsignature
      have hend : Text.endsWith (bare signature) ")" = false := by
        refine Bool.eq_false_iff.2 fun hend => hsignature ?_
        rw [startsWith_bare hhead hend, hend, Bool.true_and]
      rw [hend, Bool.false_and]

end LlvmAsm.Positional
