/-
  The constructors that run before the program.

  * `Constructor`: an entry of the variable `@llvm.global_ctors`, a priority and a
    function, and `Constructor.initializer`, the constant that it is;
  * `constructors_tokens`: the functions are read off the tokens of the entries, one for
    each;
  * `Listing.ofLines_constructors`: the line of the variable has one node, which names all
    functions in order.
-/
import LlvmAsm.Proofs.Initializer.RoundTrip
import LlvmAsm.Proofs.Body
import LlvmAsm.Proofs.Modifier

namespace LlvmAsm

open Token Reading

/-! ## Entries -/

/-- A function that runs before the program, and its priority in decimal digits. -/
structure Constructor where
  priority : Text
  ne_nil : priority ≠ []
  all_digits : ∀ c ∈ priority, c.isDigit = true
  function : PlainName

namespace Constructor

/-- The type of a priority. -/
def priorityTy : Ty := .int 32

/-- The type of a function without parameters and without a result. -/
def functionTy : { T : Ty // T.IsPointer } := ⟨.functionPointer .void [] false, trivial⟩

/-- The type of an entry. -/
def entryTy : { T : Ty // T.IsBrace } := ⟨.struct false priorityTy [functionTy], rfl⟩

variable (k : Constructor)

/-- The name of the function. -/
def name : Text := '@' :: k.function.text

/-- The text of an entry, with its type. -/
def print : Text :=
  '{' :: " i32, void ()* \x7d \x7b i32 " ++ k.priority ++ ", void ()* @" ++ k.function.text ++
    " \x7d"

/-- The entry as a constant. -/
def initializer : Initializer :=
  .struct entryTy (.int 32 ⟨false, k.priority, k.ne_nil, k.all_digits⟩)
    [.symbol functionTy k.function]

theorem print_initializer : k.initializer.ty.print ++ ' ' :: k.initializer.print = k.print := by
  have hty : entryTy.1.print = "\x7b i32, void ()* \x7d" := by decide
  have hpriority : priorityTy.print = "i32" := by decide
  have hfunction : functionTy.1.print = "void ()*" := by decide
  have hvalue : k.initializer.print = '{' :: ' ' ::
      (commaList [priorityTy.print ++ ' ' :: k.priority, functionTy.1.print ++ ' ' :: k.name] ++
        [' ', '}']) := rfl
  rw [show k.initializer.ty = entryTy.1 from rfl, hty, hvalue, commaList_cons_cons,
    commaList_singleton, hpriority, hfunction]
  simp [print, name]

/-- The entry is the second token of its segment, and the function the last one in it. -/
theorem tokens_initializer :
    ∃ members, k.initializer.tokens = [braceGroup members []] ∧
      members.getLast? = some (word k.name) :=
  ⟨_, rfl, rfl⟩

end Constructor

/-! ## The tokens of the entries -/

/-- The constant that the variable has, if it were an ordinary one. -/
def Constructor.table (entries : List Constructor) : Initializer :=
  .array entries.length Constructor.entryTy.1 (entries.map Constructor.initializer)

namespace Constructor

variable (entries : List Constructor)

theorem printAll_initializer :
    Initializer.printAll (entries.map initializer) = entries.map print := by
  induction entries with
  | nil => rfl
  | cons k entries ih =>
    rw [List.map_cons, List.map_cons, Initializer.printAll, ih, k.print_initializer]

/-- **No entry is left out**: each one is a segment of its own, with a structure whose last
    token is the function. -/
theorem constructors_tokens :
    Definition.constructors
      (List.intercalate [separator] (Initializer.tokensAll (entries.map initializer))) =
      entries.map name := by
  rw [Definition.constructors, Initializer.segments_tokensAll]
  induction entries with
  | nil => rfl
  | cons k entries ih =>
    obtain ⟨members, htokens, hlast⟩ := k.tokens_initializer
    have hentry : ((k.initializer.ty.token :: k.initializer.tokens)[1]?.bind Token.inner?).bind
        (fun inner => inner.getLast?.map Token.text) = some k.name := by
      rw [htokens]
      show members.getLast?.map Token.text = some k.name
      rw [hlast]
      rfl
    rw [List.map_cons, Initializer.tokensAll, List.filterMap_cons, hentry, ih, List.map_cons]

/-! ## The line of the variable -/

/-- The modifiers of the variable. -/
def modifiers : Definition.Modifiers := ⟨["appending", "global"], by decide, by decide, by decide⟩

/-- The name of the variable without its sigil. -/
def tableName : PlainName := ⟨"llvm.global_ctors", by decide, List.all_eq_true.1 (by decide)⟩

/-- The type of the variable. -/
def tableTy : Text := '[' :: Text.ofNat entries.length ++ " x \x7b i32, void ()* \x7d]"

/-- The line that lists the constructors. -/
def line : Text :=
  '@' :: "llvm.global_ctors = appending global " ++ tableTy entries ++ " [" ++
    commaList (entries.map print) ++ "]"

/-- The tokens of the line. -/
def lineTokens : List Token :=
  Definition.variableTokens (word Definition.constructorsName) modifiers (table entries).ty.token
    (table entries).tokens

theorem print_ty_table : (table entries).ty.print = tableTy entries := by
  have hentry : entryTy.1.print = "\x7b i32, void ()* \x7d" := by decide
  have hprint : (table entries).ty.print =
      '[' :: (Text.ofNat entries.length ++ " x " ++ entryTy.1.print) ++ [']'] := rfl
  rw [hprint, hentry]
  simp [tableTy]

theorem line_eq :
    line entries = Definition.constructorsName ++ ' ' :: ("=" ++ ' ' :: ("appending" ++ ' ' ::
      ("global" ++ ' ' :: ((table entries).ty.print ++ ' ' :: (table entries).print)))) := by
  have hname : Definition.constructorsName = '@' :: "llvm.global_ctors" := by decide
  have hprint : (table entries).print =
      '[' :: commaList (Initializer.printAll (entries.map initializer)) ++ [']'] := rfl
  rw [print_ty_table, hprint, printAll_initializer, hname]
  simp [line]

theorem yields_line : Yields (line entries) (lineTokens entries) := by
  have hname : Yields Definition.constructorsName [word Definition.constructorsName] :=
    tableName.yields_symbol
  have hequals : Yields "=" [word "="] :=
    Initializer.yields_keyword (w := "=") (c := '=') rfl (by decide) (by decide) (by decide)
  have happending : Yields "appending" [word "appending"] :=
    Initializer.yields_keyword (w := "appending") (c := 'a') rfl (by decide) (by decide) (by decide)
  have hglobal : Yields "global" [word "global"] :=
    Initializer.yields_keyword (w := "global") (c := 'g') rfl (by decide) (by decide) (by decide)
  rw [line_eq]
  exact hname.append_blank (hequals.append_blank (happending.append_blank
    (hglobal.append_blank ((Ty.yields _).append_blank (table entries).yields_print))))

/-- The line is read as a variable with constructors and without a value. -/
theorem result_line (number : Nat) :
    (Statement.ofLogicalLine ⟨line entries, number⟩).result =
      .ok (some ⟨number, some Definition.constructorsName, false,
        .globalVariable (tableTy entries) false none (some (entries.map name))⟩) := by
  let l : Line := ⟨(line entries).trim, number, .topLevel, lineTokens entries⟩
  have hline : Line.ofText (line entries) number = .ok l := by
    rw [Line.ofText, tokensOf_eq_ok.2 (yields_line entries).tokenize]
    rfl
  have htokens : l.tokens = word ('@' :: tableName.text) :: word "=" ::
      (modifiers.tokens ++ (table entries).ty.token :: (table entries).tokens) := rfl
  have hcategory : Category.ofLine l = .ok .global :=
    Category.ofLine_global (Or.inr rfl) rfl htokens (List.cons_ne_nil _ _)
  have hdrop : Definition.dropModifiers l.tokens =
      (word Definition.constructorsName :: word "=" :: (table entries).ty.token ::
        (table entries).tokens, false) :=
    Definition.dropModifiers_modifiers modifiers (table entries).ty.isTypeToken_token _ _ _
  have hkind : (Definition.globalVariable l Definition.constructorsName).result =
      .ok (.globalVariable (tableTy entries) false none (some (entries.map name))) := by
    have htext : textAt l (word Definition.constructorsName :: word "=" ::
        (table entries).ty.token :: (table entries).tokens) 2 = pure (tableTy entries) := by
      rw [← print_ty_table, ← Ty.text_token]
      rfl
    rw [Definition.globalVariable, hdrop]
    simp only [htext, pure_bind, if_true]
    show Except.ok (Kind.globalVariable (tableTy entries) false none
      (some (Definition.constructors (List.intercalate [separator]
        (Initializer.tokensAll (entries.map initializer)))))) = _
    rw [constructors_tokens]
  rw [Statement.result_ofText hline, Statement.result_of_category hcategory (by decide),
    Statement.ofCategory, result_map, Definition.symbol_variableTokens _ _ _ l rfl]
  exact congrArg (Except.map some) (result_bind_ok hkind _)

end Constructor

/-- **No constructor is lost.** The line that lists the constructors has one node, of a
    variable without a value, which names the functions of all entries in order. -/
theorem Listing.ofLines_constructors (entries : List Constructor) (deferred : Bool) (base : Nat) :
    let ty := '[' :: Text.ofNat entries.length ++ " x \x7b i32, void ()* \x7d]"
    let entryTexts := entries.map fun k =>
      '{' :: " i32, void ()* \x7d \x7b i32 " ++ k.priority ++ ", void ()* @" ++ k.function.text ++
        " \x7d"
    (Listing.ofLines deferred base
        ['@' :: "llvm.global_ctors = appending global " ++ ty ++ " [" ++ commaList entryTexts ++
          "]"]).result =
      .ok ⟨[⟨base + 1, some "@llvm.global_ctors", false,
        .globalVariable ty false none (some (entries.map fun k => '@' :: k.function.text))⟩], []⟩ := by
  intro ty entryTexts
  have houtline : (Outline.ofLines deferred base [Constructor.line entries]).result =
      .ok ⟨[⟨Constructor.line entries, base + 1⟩], []⟩ := Outline.ofLines_symbol deferred base _
  have hlisting := Listing.result_of_single houtline
  rw [Constructor.result_line] at hlisting
  exact hlisting

end LlvmAsm
