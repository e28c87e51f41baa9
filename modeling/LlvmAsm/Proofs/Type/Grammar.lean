/-
  The grammar of types and their spelling.

  `Ty` is a type of the assembly as a tree, and `Ty.print` its text. The library
  never builds such a tree: it asks the text for its kind, and gives the right
  answer for every tree (`Ty.isType_print`).

  * `Ty.induction` is the induction over trees, with the members of structures
    and the parameters of functions as lists;
  * `commaList` joins texts as the members of a structure are joined.
-/
import LlvmAsm.Proofs.Token.Arrangement
import LlvmAsm.Text.Word
import Mathlib.Data.List.Forall2

namespace LlvmAsm

/-! ## Types -/

/-- The floating point types. -/
inductive FloatKind where
  | float | double | half | fp128 | x86Fp80
deriving DecidableEq, Repr

/-- The name of a floating point type. -/
def FloatKind.print : FloatKind → Text
  | float => "float"
  | double => "double"
  | half => "half"
  | fp128 => "fp128"
  | x86Fp80 => "x86_fp80"

/-- The character may stand in a name without quotes. -/
def isNameChar (c : Char) : Bool := isWordChar c || c = '.' || c = '$' || c = '-'

theorem isNameChar_of_isDigit {c : Char} (h : c.isDigit = true) : isNameChar c = true := by
  simp [isNameChar, isWordChar, Char.isAlphanum, h]

/-- A name without quotes. -/
structure PlainName where
  text : Text
  ne_nil : text ≠ []
  plain : ∀ c ∈ text, isNameChar c = true

theorem PlainName.not_mem_text (name : PlainName) {c : Char} (h : isNameChar c = false) :
    c ∉ name.text := by
  intro hc
  rw [name.plain c hc] at h
  cases h

/-- A type of the assembly. -/
inductive Ty where
  | void
  | int (bits : Nat)
  | float (kind : FloatKind)
  | named (name : PlainName)
  | array (length : Nat) (element : Ty)
  /-- a structure of one member or more -/
  | struct (packed : Bool) (first : Ty) (rest : List Ty)
  | pointer (target : Ty)
  /-- a pointer to a function, with more arguments than parameters if it is variadic -/
  | functionPointer (result : Ty) (params : List Ty) (variadic : Bool)

/-- Texts in a list, with a comma and a blank between them. -/
def commaList (texts : List Text) : Text := List.intercalate ", " texts

/-- What stands for the arguments that have no parameter. -/
def ellipsis : Text := "..."

section
variable {α β : Type} {as : List α} {more : α}

/-- The arguments of a function, with an entry for more of them if it is variadic. -/
def argList (more : α) (variadic : Bool) (as : List α) : List α :=
  if variadic then as ++ [more] else as

theorem forall_mem_argList {p : α → Prop} (h : ∀ a ∈ as, p a) (hmore : p more) (variadic : Bool) :
    ∀ a ∈ argList more variadic as, p a := by
  cases variadic with
  | false => exact h
  | true => exact List.forall_mem_append.2 ⟨h, by simpa using hmore⟩

theorem forall₂_argList {r : α → β → Prop} {bs : List β} {more' : β} (h : List.Forall₂ r as bs)
    (hmore : r more more') (variadic : Bool) :
    List.Forall₂ r (argList more variadic as) (argList more' variadic bs) := by
  cases variadic with
  | false => exact h
  | true => exact List.rel_append h (.cons hmore .nil)

end

namespace Ty

mutual

/-- The text of a type. -/
def print : Ty → Text
  | void => "void"
  | int bits => 'i' :: Text.ofNat bits
  | float kind => kind.print
  | named name => '%' :: name.text
  | array length element => '[' :: (Text.ofNat length ++ " x " ++ element.print) ++ [']']
  | struct packed first rest =>
    let braces := '{' :: ' ' :: commaList (first.print :: printAll rest) ++ [' ', '}']
    if packed then '<' :: braces ++ ['>'] else braces
  | pointer target => target.print ++ ['*']
  | functionPointer result params variadic =>
    let args := commaList (argList ellipsis variadic (printAll params))
    result.print ++ ' ' :: ('(' :: args ++ [')', '*'])

/-- The texts of types. -/
def printAll : List Ty → List Text
  | [] => []
  | T :: Ts => T.print :: printAll Ts

end

theorem printAll_eq_map (Ts : List Ty) : printAll Ts = Ts.map print := by
  induction Ts with
  | nil => rfl
  | cons T Ts ih => rw [printAll, ih, List.map_cons]

/-- Induction over a type, with all members and parameters. -/
theorem induction {motive : Ty → Prop} (void : motive void) (int : ∀ bits, motive (int bits))
    (float : ∀ kind, motive (float kind)) (named : ∀ name, motive (named name))
    (array : ∀ length element, motive element → motive (array length element))
    (struct : ∀ packed first rest, motive first → (∀ T ∈ rest, motive T) →
      motive (struct packed first rest))
    (pointer : ∀ target, motive target → motive (pointer target))
    (functionPointer : ∀ result params variadic, motive result → (∀ T ∈ params, motive T) →
      motive (functionPointer result params variadic)) (T : Ty) : motive T :=
  @Ty.rec motive (fun Ts => ∀ T ∈ Ts, motive T) void int float named array
    (fun packed first rest hfirst hrest => struct packed first rest hfirst hrest) pointer
    (fun result params variadic hresult hparams =>
      functionPointer result params variadic hresult hparams)
    (by simp) (fun _ _ hT hTs => List.forall_mem_cons.2 ⟨hT, hTs⟩) T

end Ty

/-! ## Their characters -/

namespace Text

theorem isDigit_of_mem_ofNat {n : Nat} {c : Char} (h : c ∈ ofNat n) : isDigit c = true :=
  isDigit_of_isDigit (Nat.isDigit_of_mem_toDigits (by decide) (by decide) h)

theorem ofNat_ne_nil (n : Nat) : ofNat n ≠ [] := Nat.toDigits_ne_nil

theorem startsWith_append (t rest : Text) : startsWith (t ++ rest) t = true := by
  rw [startsWith, after?_eq_some_iff.2 rfl]
  rfl

theorem endsWith_iff {t mark : Text} : endsWith t mark = true ↔ ∃ u, t = u ++ mark := by
  rw [endsWith, startsWith, Option.isSome_iff_exists]
  constructor
  · rintro ⟨u, hu⟩
    refine ⟨u.reverse, ?_⟩
    rw [← List.reverse_reverse t, after?_eq_some_iff.1 hu, List.reverse_append,
      List.reverse_reverse]
  · rintro ⟨u, rfl⟩
    exact ⟨u.reverse, after?_eq_some_iff.2 List.reverse_append⟩

theorem endsWith_append (t rest : Text) : endsWith (t ++ rest) rest = true :=
  endsWith_iff.2 ⟨t, rfl⟩

theorem endsWith_eq_false {t mark : Text} {c : Char} (hmark : c ∈ mark) (h : c ∉ t) :
    endsWith t mark = false := by
  rw [Bool.eq_false_iff]
  intro hend
  obtain ⟨u, rfl⟩ := endsWith_iff.1 hend
  exact h (List.mem_append_right _ hmark)

end Text

@[simp] theorem commaList_singleton (t : Text) : commaList [t] = t := List.intercalate_singleton

theorem commaList_cons_cons (t u : Text) (texts : List Text) :
    commaList (t :: u :: texts) = t ++ ',' :: ' ' :: commaList (u :: texts) := by
  simp [commaList, List.intercalate_cons_cons]

/-- A list holds commas, blanks and the characters of its texts. -/
theorem not_mem_commaList {c : Char} (hc : c ∉ [',', ' ']) {texts : List Text}
    (h : ∀ t ∈ texts, c ∉ t) : c ∉ commaList texts := by
  induction texts with
  | nil => exact List.not_mem_nil
  | cons t texts ih =>
    obtain ⟨ht, htexts⟩ := List.forall_mem_cons.1 h
    cases texts with
    | nil => rwa [commaList_singleton]
    | cons u texts =>
      simp only [List.mem_cons, List.not_mem_nil, or_false, not_or] at hc
      rw [commaList_cons_cons]
      simp [ht, hc, ih htexts]

namespace TypeText

theorem isPointer_iff {ty : Text} : isPointer ty = true ↔ ty.getLast? = some '*' := by
  unfold isPointer Text.endsWith
  rw [← List.head?_reverse]
  cases ty.reverse with
  | nil => simp [Text.startsWith, Text.after?]
  | cons c rest =>
    by_cases hc : c = '*'
    · simp [Text.startsWith, Text.after?, hc]
    · simp [Text.startsWith, Text.after?, hc, Ne.symm hc]

theorem isPointer_append {u : Text} (hu : u ≠ []) (t : Text) :
    isPointer (t ++ u) = isPointer u := by
  rw [Bool.eq_iff_iff, isPointer_iff, isPointer_iff, List.getLast?_append,
    List.getLast?_eq_some_getLast hu, Option.some_or]

theorem isPointer_eq_false {ty : Text} (h : ty.getLast? ≠ some '*') : isPointer ty = false :=
  Bool.eq_false_iff.2 fun htrue => h (isPointer_iff.1 htrue)

theorem isPlain_of_isNumber {ty : Text} (h : isNumber ty = true) : isPlain ty = true := by
  simp [isPlain, h]

theorem isPlain_of_isStruct {ty : Text} (h : isStruct ty = true) : isPlain ty = true := by
  simp [isPlain, h]

theorem isPlain_of_isPointer {ty : Text} (h : isPointer ty = true) : isPlain ty = true := by
  simp [isPlain, h]

end TypeText

namespace Ty

open TypeText

theorem two_le_length_print (T : Ty) : 2 ≤ T.print.length := by
  induction T using Ty.induction with
  | void => decide
  | int bits => simpa [print, Nat.succ_le_iff, List.length_pos_iff] using Text.ofNat_ne_nil bits
  | float kind => cases kind <;> decide
  | named name => simpa [print, Nat.succ_le_iff, List.length_pos_iff] using name.ne_nil
  | array length element => simp [print]; omega
  | struct packed first rest => cases packed <;> simp [print]
  | pointer target ih => exact Nat.le_trans ih (by simp [print])
  | functionPointer result params variadic => simp +arith [print]

/-- The characters of types that are in no name. -/
def markChars : List Char := ['%', '[', ']', ' ', '{', '}', '<', '>', ',', '*', '(', ')']

/-- A type is spelled with the characters of names and those. -/
theorem not_mem_print {c : Char} (hname : isNameChar c = false) (hmark : c ∉ markChars) (T : Ty) :
    c ∉ T.print := by
  have hword : ∀ {t : Text}, t.all isNameChar = true → c ∉ t := by
    intro t ht hc
    rw [List.all_eq_true.1 ht c hc] at hname
    cases hname
  have hdigits : ∀ n, c ∉ Text.ofNat n := fun n => hword (List.all_eq_true.2 fun d hd =>
    isNameChar_of_isDigit (Nat.isDigit_of_mem_toDigits (by decide) (by decide) hd))
  simp only [markChars, List.mem_cons, List.not_mem_nil, or_false, not_or] at hmark
  have hlist : ∀ texts : List Text, (∀ t ∈ texts, c ∉ t) → c ∉ commaList texts :=
    fun texts => not_mem_commaList (by simp [hmark])
  induction T using Ty.induction with
  | void => exact hword (t := "void") (by decide)
  | int bits =>
    have hi : c ∉ ['i'] := hword (by decide)
    rw [print, List.mem_cons, not_or]
    exact ⟨by simpa using hi, hdigits bits⟩
  | float kind => cases kind <;> exact hword (by decide)
  | named name =>
    rw [print, List.mem_cons, not_or]
    exact ⟨hmark.1, name.not_mem_text hname⟩
  | array length element ih =>
    have hx : c ∉ ['x'] := hword (by decide)
    have hx : c ≠ 'x' := by simpa using hx
    simp [print, hdigits, ih, hmark, hx]
  | struct packed first rest hfirst hrest =>
    have hmembers : c ∉ commaList (first.print :: printAll rest) := by
      apply hlist
      simpa [printAll_eq_map, hfirst] using hrest
    cases packed <;> simp [print, hmembers, hmark]
  | pointer target ih => simp [print, ih, hmark]
  | functionPointer result params variadic hresult hparams =>
    have hmore : c ∉ ellipsis := hword (by decide)
    have hprinted : ∀ t ∈ printAll params, c ∉ t := by simpa [printAll_eq_map] using hparams
    have hargs : c ∉ commaList (argList ellipsis variadic (printAll params)) :=
      hlist _ (forall_mem_argList hprinted hmore variadic)
    simp [print, hresult, hargs, hmark]

/-- A type is spelled on one line. -/
theorem newline_not_mem_print (T : Ty) : '\n' ∉ T.print := T.not_mem_print (by decide) (by decide)

theorem isArray_print (length : Nat) (element : Ty) :
    isArray (array length element).print = true := by
  have hdigits : Text.leadingDigits? (Text.ofNat length ++ " x " ++ element.print ++ [']']) =
      some (Text.ofNat length, " x " ++ element.print ++ [']']) := by
    rw [List.append_assoc, List.append_assoc]
    refine Text.leadingDigits?_append (fun _ => Text.isDigit_of_mem_ofNat)
      (Text.ofNat_ne_nil length) ?_
    rintro _ ⟨⟩
    decide
  have hafter : Text.after? (" x " ++ element.print ++ [']']) " x " =
      some (element.print ++ [']']) :=
    Text.after?_eq_some_iff.2 (List.append_assoc _ _ _)
  have hline : '\n' ∉ element.print ++ [']'] := by simp [newline_not_mem_print element]
  rw [print, List.cons_append, isArray, hdigits, Option.bind_some]
  dsimp only
  rw [hafter]
  simp [Text.endsWith_append, hline]

theorem isStruct_print_struct (packed : Bool) (first : Ty) (rest : List Ty) :
    isStruct (struct packed first rest).print = true := by
  have hpointer : isPointer (struct packed first rest).print = false := by
    cases packed with
    | false => exact (isPointer_append (by simp) _).trans (by decide)
    | true => exact (isPointer_append (by simp) _).trans (by decide)
  cases packed with
  | false =>
    have hbrace : Text.startsWith (struct false first rest).print ['{'] = true :=
      Text.startsWith_append ['{'] _
    simp [isStruct, hpointer, hbrace]
  | true =>
    have hopen : Text.startsWith (struct true first rest).print ['<', '{'] = true :=
      Text.startsWith_append ['<', '{'] _
    have hclose : Text.endsWith (struct true first rest).print ['}', '>'] = true := by
      have := Text.endsWith_append
        ('<' :: '{' :: ' ' :: commaList (first.print :: printAll rest) ++ [' ']) ['}', '>']
      simpa [print] using this
    simp [isStruct, hpointer, hopen, hclose]

/-- **The text of a type spells a type**, and not only the type of a function. -/
theorem isPlain_print (T : Ty) : isPlain T.print = true := by
  cases T with
  | void => decide
  | int bits =>
    apply isPlain_of_isNumber
    have hdigits : ∀ c ∈ Text.ofNat bits, isDigit c = true := fun _ => Text.isDigit_of_mem_ofNat
    simpa [print, isNumber, isInteger, Text.ofNat_ne_nil] using Or.inl hdigits
  | float kind => cases kind <;> decide
  | named name =>
    have hpointer : isPointer ('%' :: name.text) = false := by
      apply isPointer_eq_false
      intro hlast
      rcases List.mem_cons.1 (List.mem_of_getLast? hlast) with hstar | hstar
      · cases hstar
      · exact name.not_mem_text (by decide) hstar
    have hsigil : Text.startsWith ('%' :: name.text) ['%'] = true :=
      Text.startsWith_append ['%'] name.text
    exact isPlain_of_isStruct (by simp [isStruct, print, hpointer, hsigil])
  | array length element =>
    have hpointer : isPointer (array length element).print = false :=
      (isPointer_append (by simp) _).trans (by decide)
    exact isPlain_of_isStruct (by simp [isStruct, hpointer, isArray_print])
  | struct packed first rest => exact isPlain_of_isStruct (isStruct_print_struct packed first rest)
  | pointer target =>
    exact isPlain_of_isPointer ((isPointer_append (by simp) _).trans (by decide))
  | functionPointer result params variadic =>
    have hpointer : isPointer (functionPointer result params variadic).print = true := by
      rw [print, isPointer_append (by simp), ← List.cons_append, isPointer_append (by simp)]
      decide
    exact isPlain_of_isPointer hpointer

theorem isType_print (T : Ty) : isType T.print = true := by
  rw [isType, isPlain_print, Bool.true_or]

end Ty

end LlvmAsm
