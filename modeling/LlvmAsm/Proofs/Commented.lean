/-
  Tokens with a comment behind them.

  `Commented ts ts'` says that `ts'` are the tokens `ts`, of which none is a semicolon,
  with the semicolon and the words of a comment behind them or not. It is kept by
  whatever readers do to tokens: they take and drop some from the front, look for a word
  or a group, and leave modifiers out. Segments and operands before the comment are the
  same.
-/
import LlvmAsm.Proofs.Refinement
import LlvmAsm.Proofs.Token.Comment

namespace LlvmAsm

open Reading

/-! ## Tokens with a comment -/

/-- The tokens begin with a semicolon, if there are any. -/
def IsComment (c : List Token) : Prop := ∀ t ∈ c.head?, t = Token.semicolon

/-- The tokens `ts'` are the tokens `ts`, none of which begins a comment, with a comment
    behind them or not. -/
structure Commented (ts ts' : List Token) : Prop where
  plain : ∀ t ∈ ts, t.isComment = false
  eq_append : ∃ c, IsComment c ∧ ts' = ts ++ c

theorem isComment_nil : IsComment [] := by
  rintro _ ⟨⟩

theorem IsComment.cases {c : List Token} (h : IsComment c) :
    c = [] ∨ ∃ words, c = Token.semicolon :: words := by
  cases c with
  | nil => exact Or.inl rfl
  | cons t words => exact Or.inr ⟨words, by rw [h t rfl]⟩

theorem IsComment.dropWhile {c : List Token} {p : Token → Bool} (h : IsComment c)
    (hp : p Token.semicolon = false) : c.dropWhile p = c := by
  rcases h.cases with rfl | ⟨words, rfl⟩
  · rfl
  · exact List.dropWhile_cons_of_neg (by simp [hp])

theorem not_isOneOf_semicolon {ws : List Text} (h : [';'] ∉ ws) :
    Token.semicolon.isOneOf ws = false := by
  simpa [Token.isOneOf] using h

namespace Commented

variable {ts ts' : List Token} {t : Token} {i : Nat} {p : Token → Bool} {ws : List Text}

theorem getElem? (h : Commented ts ts') (ht : ts[i]? = some t) : ts'[i]? = some t := by
  obtain ⟨-, c, -, rfl⟩ := h
  rw [List.getElem?_append_left (List.getElem?_eq_some_iff.1 ht).1, ht]

theorem getElem?_of_lt (h : Commented ts ts') (hi : i < ts.length) : ts'[i]? = ts[i]? := by
  rw [List.getElem?_eq_getElem hi]
  exact h.getElem? (List.getElem?_eq_getElem hi)

/-- Right behind the tokens, there is nothing or a semicolon. -/
theorem getElem?_cases (h : Commented ts ts') (hi : i ≤ ts.length) :
    ts'[i]? = ts[i]? ∨ ts[i]? = none ∧ ts'[i]? = some Token.semicolon := by
  obtain ⟨-, c, hc, rfl⟩ := h
  rcases Nat.lt_or_eq_of_le hi with hlt | rfl
  · exact Or.inl (List.getElem?_append_left hlt)
  · rw [List.getElem?_append_right (Nat.le_refl _), Nat.sub_self, List.getElem?_length]
    rcases hc.cases with rfl | ⟨words, rfl⟩
    · exact Or.inl rfl
    · exact Or.inr ⟨rfl, rfl⟩

/-- What a semicolon does not have, the token right behind has in neither list. -/
theorem bind_getElem? {α : Type} {f : Token → Option α} (h : Commented ts ts')
    (hi : i ≤ ts.length) (hf : f Token.semicolon = none) : ts'[i]?.bind f = ts[i]?.bind f := by
  rcases h.getElem?_cases hi with heq | ⟨hnone, hsemicolon⟩
  · rw [heq]
  · rw [hnone, hsemicolon, Option.bind_some, hf, Option.bind_none]

theorem any_getElem? (h : Commented ts ts') (hi : i ≤ ts.length)
    (hp : p Token.semicolon = false) : ts'[i]?.any p = ts[i]?.any p := by
  rcases h.getElem?_cases hi with heq | ⟨hnone, hsemicolon⟩
  · rw [heq]
  · rw [hnone, hsemicolon, Option.any_some, hp, Option.any_none]

/-- The comment may be left out. -/
theorem refl (hplain : ∀ t ∈ ts, t.isComment = false) : Commented ts ts :=
  ⟨hplain, [], isComment_nil, (List.append_nil ts).symm⟩

theorem self (h : Commented ts ts') : Commented ts ts := refl h.plain

/-- The first token is kept. -/
theorem exists_cons (h : Commented (t :: ts) ts') :
    ∃ rest, ts' = t :: rest ∧ Commented ts rest := by
  obtain ⟨hplain, c, hc, rfl⟩ := h
  exact ⟨ts ++ c, rfl, fun u hu => hplain u (List.mem_cons_of_mem t hu), c, hc, rfl⟩

theorem head?_bind {α : Type} {f : Token → Option α} {a : α} (h : Commented ts ts')
    (ha : ts.head?.bind f = some a) : ts'.head?.bind f = some a := by
  cases ts with
  | nil => cases ha
  | cons t ts =>
    obtain ⟨rest, rfl, -⟩ := h.exists_cons
    exact ha

theorem dropHead (h : Commented ts ts') (hts : ts ≠ []) (p : Token → Bool) :
    Commented (if ts.head?.any p then ts.tail else ts)
      (if ts'.head?.any p then ts'.tail else ts') := by
  obtain ⟨t, rest, rfl⟩ := List.exists_cons_of_ne_nil hts
  obtain ⟨rest', rfl, hrest⟩ := h.exists_cons
  cases hp : p t with
  | true => simpa [hp] using hrest
  | false => simpa [hp] using h

theorem findIdx? (h : Commented ts ts') (hi : ts.findIdx? p = some i) :
    ts'.findIdx? p = some i := by
  obtain ⟨-, c, -, rfl⟩ := h
  rw [List.findIdx?_append, hi, Option.some_or]

theorem take (h : Commented ts ts') (hi : i ≤ ts.length) : ts'.take i = ts.take i := by
  obtain ⟨-, c, -, rfl⟩ := h
  exact List.take_append_of_le_length hi

theorem drop (h : Commented ts ts') (hi : i ≤ ts.length) : Commented (ts.drop i) (ts'.drop i) := by
  obtain ⟨hplain, c, hc, rfl⟩ := h
  exact ⟨fun t ht => hplain t (List.mem_of_mem_drop ht), c, hc, List.drop_append_of_le_length hi⟩

theorem eraseIdx (h : Commented ts ts') (hi : i < ts.length) :
    Commented (ts.eraseIdx i) (ts'.eraseIdx i) := by
  obtain ⟨hplain, c, hc, rfl⟩ := h
  exact ⟨fun t ht => hplain t (List.mem_of_mem_eraseIdx ht), c, hc,
    List.eraseIdx_append_of_lt_length hi c⟩

theorem filter (h : Commented ts ts') (hp : p Token.semicolon = true) :
    Commented (ts.filter p) (ts'.filter p) := by
  obtain ⟨hplain, c, hc, rfl⟩ := h
  refine ⟨fun t ht => hplain t (List.mem_filter.1 ht).1, c.filter p, ?_, List.filter_append ts c⟩
  rcases hc.cases with rfl | ⟨words, rfl⟩
  · exact hc
  · rw [List.filter_cons_of_pos hp]
    exact fun t ht => (Option.some.inj ht).symm

/-- The tokens are those before the comment. -/
theorem beforeComment (h : Commented ts ts') : LlvmAsm.beforeComment ts' = ts := by
  obtain ⟨hplain, c, hc, rfl⟩ := h
  have hall : ∀ t ∈ ts, (!t.isComment) = true := fun t ht => by simp [hplain t ht]
  rw [LlvmAsm.beforeComment, List.takeWhile_append_of_pos hall]
  rcases hc.cases with rfl | ⟨words, rfl⟩
  · exact List.append_nil ts
  · exact List.append_nil ts

theorem dropWordsAt (h : Commented ts ts') (hws : [';'] ∉ ws) (i : Nat) :
    Commented (LlvmAsm.dropWordsAt ws i ts) (LlvmAsm.dropWordsAt ws i ts') := by
  obtain ⟨hplain, c, hc, rfl⟩ := h
  have hsemicolon := not_isOneOf_semicolon hws
  refine ⟨fun t ht => ?_, LlvmAsm.dropWordsAt ws (i - ts.length) c, ?_, ?_⟩
  · rcases List.mem_append.1 ht with ht | ht
    · exact hplain t (List.mem_of_mem_take ht)
    · exact hplain t (List.mem_of_mem_drop ((List.dropWhile_sublist _).mem ht))
  · rcases hc.cases with rfl | ⟨words, rfl⟩
    · simpa [LlvmAsm.dropWordsAt] using hc
    · cases i - ts.length <;> simp [LlvmAsm.dropWordsAt, IsComment, hsemicolon]
  · unfold LlvmAsm.dropWordsAt
    rw [List.take_append, List.drop_append, List.dropWhile_append]
    rcases Nat.le_total i ts.length with hi | hi
    · rw [Nat.sub_eq_zero_of_le hi, List.drop_zero, hc.dropWhile hsemicolon]
      split <;> simp_all
    · simp [List.drop_eq_nil_of_le hi]

/-- A word is dropped before the comment or in it. -/
theorem dropWord {w : Text} (h : Commented ts ts') (hw : w ≠ [';']) (n : Nat) :
    Commented (LlvmAsm.dropWord w n ts) (LlvmAsm.dropWord w n ts') := by
  obtain ⟨hplain, c, hc, rfl⟩ := h
  have hindex : findWord? w ((ts ++ c).take n) = (findWord? w (ts.take n)).or
      ((findWord? w (c.take (n - ts.length))).map (· + (ts.take n).length)) := by
    rw [findWord?, List.take_append, List.findIdx?_append]
    rfl
  unfold LlvmAsm.dropWord
  rw [hindex]
  cases hfind : findWord? w (ts.take n) with
  | some position =>
    have hlt : position < ts.length := by
      have := (List.findIdx?_eq_some_iff_getElem.1 hfind).1
      exact Nat.lt_of_lt_of_le this (List.length_take_le' n ts)
    exact eraseIdx ⟨hplain, c, hc, rfl⟩ hlt
  | none =>
    cases hfind' : findWord? w (c.take (n - ts.length)) with
    | none => exact ⟨hplain, c, hc, rfl⟩
    | some position =>
      obtain ⟨hposition, hword, -⟩ := List.findIdx?_eq_some_iff_getElem.1 hfind'
      have hlength : (ts.take n).length = ts.length := by
        rw [List.length_take] at *
        omega
      have herase : (ts ++ c).eraseIdx (position + ts.length) = ts ++ c.eraseIdx position := by
        rw [List.eraseIdx_append_of_length_le (by omega), Nat.add_sub_cancel]
      simp only [Option.map_some, Option.none_or, hlength, herase]
      refine ⟨hplain, c.eraseIdx position, ?_, rfl⟩
      rcases hc.cases with rfl | ⟨words, rfl⟩
      · exact hc
      · cases position with
        | zero => simp [Token.isWord, hw.symm] at hword
        | succ position => exact fun t ht => (Option.some.inj ht).symm

/-- The comment adds no segment that is not empty. -/
theorem segmentsFrom (h : Commented ts ts') (current : List Token) :
    ∃ more, LlvmAsm.segmentsFrom current ts' = LlvmAsm.segmentsFrom current ts ++ more ∧
      ∀ part ∈ more, part = [] := by
  obtain ⟨hplain, c, hc, rfl⟩ := h
  induction ts generalizing current with
  | nil =>
    rcases hc.cases with rfl | ⟨words, rfl⟩
    · exact ⟨[], by simp, by simp⟩
    · have hsegments : LlvmAsm.segmentsFrom current (Token.semicolon :: words) = [current] := rfl
      cases current with
      | nil => exact ⟨[[]], hsegments, by simp⟩
      | cons t current => exact ⟨[], hsegments, by simp⟩
  | cons t ts ih =>
    obtain ⟨ht, hts⟩ := List.forall_mem_cons.1 hplain
    simp only [List.cons_append, LlvmAsm.segmentsFrom, ht, Bool.false_eq_true, if_false]
    split
    · obtain ⟨more, hmore, hempty⟩ := ih [] hts
      exact ⟨more, by rw [hmore, List.cons_append], hempty⟩
    · exact ih (current ++ [t]) hts

theorem segments (h : Commented ts ts') :
    ∃ more, LlvmAsm.segments ts' = LlvmAsm.segments ts ++ more ∧ ∀ part ∈ more, part = [] :=
  h.segmentsFrom []

theorem tokenAt (h : Commented ts ts') (line line' : Line) (i : Nat) :
    (Reading.tokenAt line ts i).Kept (Reading.tokenAt line' ts' i) :=
  kept_tokenAt line line' fun _ => h.getElem?

theorem textAt (h : Commented ts ts') (line line' : Line) (i : Nat) :
    (Reading.textAt line ts i).Kept (Reading.textAt line' ts' i) :=
  kept_textAt line line' fun _ => h.getElem?

end Commented

theorem getElem?_of_tokenAt {line : Line} {ts : List Token} {i : Nat} {t : Token}
    (h : (tokenAt line ts i).result = .ok t) : ts[i]? = some t := by
  unfold tokenAt at h
  cases ht : ts[i]? with
  | none =>
    rw [ht] at h
    cases h
  | some t' =>
    rw [ht] at h
    exact congrArg some (Except.ok.inj h)

theorem lt_length_of_textAt {line : Line} {ts : List Token} {i : Nat} {w : Text}
    (h : (textAt line ts i).result = .ok w) : i < ts.length := by
  obtain ⟨t, ht, -⟩ := exists_of_map_ok h
  exact (List.getElem?_eq_some_iff.1 (getElem?_of_tokenAt ht)).1

theorem le_length_dropWordsAt (ws : List Text) {ts : List Token} {i : Nat} (hi : i ≤ ts.length) :
    i ≤ (dropWordsAt ws i ts).length := by
  rw [dropWordsAt, List.length_append, List.length_take]
  omega

namespace Commented

variable {ts ts' : List Token}

/-- The first segment is read as if there was no comment. -/
theorem headD_segments (h : Commented ts ts') :
    (LlvmAsm.segments ts').headD [] = (LlvmAsm.segments ts).headD [] := by
  obtain ⟨more, hmore, hempty⟩ := h.segments
  rw [hmore]
  cases LlvmAsm.segments ts with
  | cons part parts => rfl
  | nil =>
    cases more with
    | nil => rfl
    | cons part parts => exact hempty part List.mem_cons_self

/-- Empty segments are left out, and so is the one before the comment. -/
theorem kept_operands (h : Commented ts ts') (line line' : Line) :
    (operands line ((LlvmAsm.segments ts).filter (!·.isEmpty))).Kept
      (operands line' ((LlvmAsm.segments ts').filter (!·.isEmpty))) := by
  obtain ⟨more, hmore, hempty⟩ := h.segments
  have hfilter : more.filter (!·.isEmpty) = [] :=
    List.filter_eq_nil_iff.2 fun part hpart => by simp [hempty part hpart]
  rw [hmore, List.filter_append, hfilter, List.append_nil]
  exact LlvmAsm.kept_operands line line' _

end Commented

end LlvmAsm
