/-
  Blanks before a closing brace.

  A brace is no delimiter: one that follows plain characters at once goes on with their
  word. The word is then split before its last brace, and what stands before it is a
  single token inside the group, whatever it is. So blanks before a closing brace may be
  left out only behind a delimiter, or behind a word that the brace would take up by
  itself (`tokensOf_delete_blanks`).

  * `Unenclosed.exists_detached`: where no quote and no encloser is open, a text falls
    into a part that nothing goes on with and a word of plain characters;
  * `pieces_word_append_iff`: where that word ends;
  * `Token.place_injective`: two token lists that agree after one more token agreed before;
  * `Token.place_closing_iff`: when a word and a brace behind it can be placed as one word.
-/
import LlvmAsm.Proofs.Token.Comment
import LlvmAsm.Proofs.Token.Render

namespace LlvmAsm

open Scan Token

/-! ## Where a word ends -/

section
variable {w rest : Text} {c : Char} {ps : List Token}

theorem not_plainChar_cases (hc : ¬ PlainChar c) :
    Delimits c ∨ c = '"' ∨ ∃ e, mark? false c = some (.closer e) := by
  by_cases hmark : Mark.of? c = none
  · have hdelimiter : c ∈ [' ', '\t', ',', '"'] := by
      by_contra hnot
      exact hc ⟨hnot, hmark⟩
    simp only [List.mem_cons, List.not_mem_nil, or_false] at hdelimiter
    unfold Delimits
    tauto
  · obtain ⟨m, hm⟩ := Option.ne_none_iff_exists'.1 hmark
    cases m with
    | opener e => exact Or.inl (by simp [Delimits, Mark.of?_eq_opener.1 hm])
    | closer e => exact Or.inr (Or.inr ⟨e, hm⟩)

/-- A character that is not plain completes the word before it, and does what it does at
    the beginning of a text. Only a quote goes on with a lone sigil. -/
theorem Scan.step_not_plain (hc : ¬ PlainChar c) (hquote : c = '"' → w ∉ sigils) :
    step ⟨w.reverse, false, .zero, 0⟩ c =
      (start.step c).map fun (done, s) => (Lexeme.ofText w ++ done, s) := by
  rcases not_plainChar_cases hc with hdelimits | rfl | ⟨e, hmark⟩
  · obtain ⟨more, s, hstart, hstep⟩ := step_delimiter hdelimits w.reverse
    rw [hstart, hstep, List.reverse_reverse]
    rfl
  · have hsigil := hquote rfl
    simp only [mem_sigils, not_or] at hsigil
    simp [step, start, quote, restart, Except.map, hsigil, released, pending, Lexeme.ofText]
  · have hlower : Depths.zero.lower? e = none := by cases e <;> rfl
    have hfault : ∀ held, step ⟨held, false, .zero, 0⟩ c = .error (.stray c) := fun held => by
      rw [step_of_closer hmark, closeGroup, hlower]
    rw [start, hfault, hfault]
    rfl

/-- **A word ends where a character is not plain.** -/
theorem pieces_word_append_iff (hne : w ≠ []) (hplain : ∀ a ∈ w, PlainChar a)
    (hrest : ∀ a ∈ rest.head?, ¬ PlainChar a ∧ (a = '"' → w ∉ sigils)) :
    Pieces (w ++ rest) ps ↔ ∃ us, Pieces rest us ∧ ps = word w :: us := by
  obtain ⟨a, w, rfl⟩ := List.exists_cons_of_ne_nil hne
  have ha : Encloser.ofOpener? a = none :=
    (Mark.of?_eq_none.1 (hplain a List.mem_cons_self).2).1
  have hcut : (cut (a :: w ++ rest)).2 = (cut rest).2 ∧ ((cut rest).2 = none →
      (cut (a :: w ++ rest)).1 = .run a w :: (cut rest).1) := by
    cases rest with
    | nil => simp [cut_plain hplain, Lexeme.ofText, show cut [] = ([], none) from rfl]
    | cons c rest =>
      obtain ⟨hc, hquote⟩ := hrest c rfl
      have hruns := (runs_plain [] hplain).cutFrom_append (c :: rest)
      rw [List.append_nil, cutFrom, step_not_plain hc hquote] at hruns
      rw [cut, start, hruns, cut, cutFrom]
      cases start.step c with
      | error fault => exact ⟨rfl, by simp⟩
      | ok next => exact ⟨rfl, fun _ => by simp [Except.map, Lexeme.ofText]⟩
  constructor
  · rintro ⟨horder, hreads⟩
    rw [hcut.1] at horder
    rw [hcut.2 horder] at hreads
    obtain ⟨b, us, hread, hreads', rfl⟩ := List.forall₂_cons_left_iff.1 hreads
    refine ⟨us, ⟨horder, hreads'⟩, ?_⟩
    cases hread with
    | word => rfl
    | group ha' => simp [ha] at ha'
  · rintro ⟨us, ⟨horder, hreads⟩, rfl⟩
    refine ⟨hcut.1.trans horder, ?_⟩
    rw [hcut.2 horder]
    exact .cons (.word ha) hreads

end

/-! ## Where nothing is open -/

/-- No quote and no encloser is open behind the text, as the search for a comment counts
    them: what follows stands outside quotes and enclosers. -/
def Unenclosed (t : Text) : Prop :=
  t.foldl (fun s c => commentState s.1 s.2 c) (false, 0) = (false, 0)

instance : DecidablePred Unenclosed := fun _ => inferInstanceAs (Decidable (_ = _))

namespace Scan

variable {s s' : Scan} {c : Char} {t u pre front : Text} {done more : List Lexeme}

/-- The pass counts what the search for a comment counts. -/
theorem Step.commentState_eq (h : s.Step c done s') :
    commentState s.quoted s.total c = (s'.quoted, s'.total) := by
  obtain ⟨hquoted, hcounts⟩ := h.counts
  cases hm : mark? s.quoted c with
  | none =>
    simp only [hm] at hcounts
    rw [commentState_of_plain hm, hquoted, hcounts.2]
  | some m =>
    rw [quotedBy_of_mark? hm] at hquoted
    cases m with
    | opener e =>
      simp only [hm] at hcounts
      rw [commentState_of_opener hm, hquoted, hcounts.2]
    | closer e =>
      simp only [hm] at hcounts
      rw [commentState_of_closer hm, hquoted, hcounts.2]

theorem Runs.foldl_commentState (h : s.Runs t done s') :
    t.foldl (fun s c => commentState s.1 s.2 c) (s.quoted, s.total) = (s'.quoted, s'.total) := by
  induction h with
  | nil s => rfl
  | cons hstep _ ih => rw [List.foldl_cons, (step_of_eq_ok hstep).commentState_eq, ih]

theorem Runs.of_append (h : s.Runs (t ++ u) done s') :
    ∃ first mid last, s.Runs t first mid ∧ mid.Runs u last s' ∧ done = first ++ last := by
  induction t generalizing s done with
  | nil => exact ⟨[], s, done, .nil s, h, rfl⟩
  | cons c t ih =>
    cases h with
    | @cons _ next _ _ _ out rest hstep hrest =>
      obtain ⟨first, mid, last, hfirst, hlast, rfl⟩ := ih hrest
      exact ⟨out ++ first, mid, last, .cons hstep hfirst, hlast, by rw [List.append_assoc]⟩

/-- What the pass holds after more of the text is one of the three again. -/
theorem Phase.runs (h : s.Phase pre) (hpre : start.Runs pre done s) (hruns : s.Runs t more s') :
    s'.Phase (pre ++ t) := by
  induction hruns generalizing pre done with
  | nil s => rwa [List.append_nil]
  | @cons s next _ c t _ _ hstep _ ih =>
    have hnext := (h.step hpre hstep (Eq.refl (pre ++ [c]))).2
    have := ih hnext (hpre.snoc hstep)
    rwa [List.append_assoc, List.singleton_append] at this

/-- A plain character goes on with the run, whatever is open. -/
theorem step_of_plainChar (hc : PlainChar c) : s.step c = .ok ([], s.hold c) := by
  obtain ⟨hdelimiter, hmark⟩ := hc
  obtain ⟨hopener, hcloser⟩ := Mark.of?_eq_none.1 hmark
  simp only [List.mem_cons, List.not_mem_nil, or_false, not_or] at hdelimiter
  simp [step, hdelimiter, hopener, hcloser]

/-- The pass is at its start only behind a character that is not plain. -/
theorem Runs.not_plain_of_start (h : start.Runs front done start) :
    ∀ c ∈ front.getLast?, ¬ PlainChar c := by
  intro c hc hplain
  obtain ⟨before, rfl⟩ := List.getLast?_eq_some_iff.1 hc
  obtain ⟨first, mid, last, -, hlast, -⟩ := h.of_append
  have hheld : mid.Runs [c] ([] ++ []) (mid.hold c) :=
    .cons (step_of_plainChar hplain) (.nil (mid.hold c))
  have hstart : mid.hold c = start := hheld.unique hlast
  exact List.cons_ne_nil c mid.held (congrArg Scan.held hstart)

end Scan

section
variable {t u pre front : Text} {ps qs : List Token} {done : List Lexeme}

theorem Detached.pieces_append_iff (h : Detached t ps) :
    Pieces (t ++ u) qs ↔ ∃ us, Pieces u us ∧ qs = ps ++ us := by
  constructor
  · intro hqs
    obtain ⟨us, hus⟩ := h.rest ⟨qs, hqs⟩
    exact ⟨us, hus, hqs.unique (h.append hus)⟩
  · rintro ⟨us, hus, rfl⟩
    exact h.append hus

/-- Nothing goes on with what stands before the start of the pass. -/
theorem Scan.Runs.exists_detached (h : start.Runs front done start)
    (horder : ∃ ps, Pieces (front ++ u) ps) : ∃ ps, Detached front ps := by
  have hcut : ∀ v, cut (front ++ v) = (done ++ (cut v).1, (cut v).2) := h.cutFrom_append
  obtain ⟨qs, horder, hreads⟩ := horder
  rw [hcut] at horder hreads
  have hdone : List.Forall₂ Lexeme.Reads done (qs.take done.length) := by
    have := List.forall₂_take done.length hreads
    rwa [List.take_left] at this
  refine ⟨qs.take done.length, ?_, fun {v us} hus => ?_, fun {v} hps => ?_⟩
  · have := hcut []
    rw [List.append_nil] at this
    constructor <;> rw [this]
    · rfl
    · simpa [show cut [] = ([], none) from rfl] using hdone
  · constructor <;> rw [hcut]
    · exact hus.order
    · exact List.rel_append hdone hus.reads
  · obtain ⟨rs, horder, hreads⟩ := hps
    rw [hcut] at horder hreads
    have := List.forall₂_drop done.length hreads
    rw [List.drop_left] at this
    exact ⟨_, horder, this⟩

/-- **Where nothing is open**, the text before falls into a part that nothing goes on
    with and the plain characters behind it. -/
theorem Unenclosed.exists_detached (hpre : Unenclosed pre)
    (horder : ∃ ps, Pieces (pre ++ u) ps) :
    ∃ front w ps, pre = front ++ w ∧ Detached front ps ∧ (∀ c ∈ w, PlainChar c) ∧
      ∀ c ∈ front.getLast?, ¬ PlainChar c := by
  obtain ⟨qs, hqs⟩ := horder
  obtain ⟨done, held, hruns, -⟩ := exists_runs counted_start hqs.order
  obtain ⟨first, s, last, hfirst, -, -⟩ := hruns.of_append
  have hcount := hfirst.foldl_commentState
  rw [show (start.quoted, start.total) = (false, 0) from rfl, hpre] at hcount
  obtain ⟨hquoted, htotal⟩ := Prod.mk.inj hcount
  have hphase := (phase_of_start (.nil start)).runs (.nil start) hfirst
  rw [List.nil_append] at hphase
  cases hphase with
  | plain front w done hfront hpre' hplain hs =>
    rw [hpre', List.append_assoc] at hqs
    obtain ⟨ps, hps⟩ := hfront.exists_detached ⟨qs, hqs⟩
    exact ⟨front, w, ps, hpre', hps, hplain, hfront.not_plain_of_start⟩
  | quote _ _ _ _ hs =>
    rw [hs] at hquoted
    cases hquoted
  | group _ _ _ _ _ hopen => exact absurd htotal.symm hopen

end

/-! ## What is placed can be taken off again -/

/-- The stars at the end of a text are those at the end of its last part, unless that
    part is nothing but stars. -/
theorem TypeText.bare_append {u : Text} (h : ∃ c ∈ u, c ≠ '*') (w : Text) :
    bare (w ++ u) = w ++ bare u := by
  have hne : u.reverse.dropWhile (· == '*') ≠ [] := by
    simpa [List.dropWhile_eq_nil_iff] using h
  unfold bare
  rw [List.reverse_append, List.dropWhile_append, if_neg (by simpa using hne)]
  simp

namespace Token

section
variable {x last : Token} {a b : Token} {w v more : Text} {before before' rest inner : List Token}

theorem append_injective (h : a.append more = b.append more) : a = b := by
  cases a <;> cases b <;> simp_all [append]

/-- A signature closes no brace. -/
theorem bare_ne_of_isSignature {head : Text} (h : (word w).isSignature = true) :
    TypeText.bare w ≠ head ++ ['}'] := by
  intro hbare
  simp [isSignature, text, hbare, Text.endsWith, Text.startsWith, Text.after?] at h

/-- What goes on with another token does not look like the group of a brace. -/
theorem append_ne_braceGroup {head stars : Text} (hext : extends? w last = true)
    (hbare : TypeText.bare w = head ++ ['}']) : last.append w ≠ braceGroup inner stars := by
  intro h
  simp only [extends?, Bool.and_eq_true, Bool.or_eq_true, Token.is, decide_eq_true_eq] at hext
  have htext := congrArg Token.text h
  rw [text_append] at htext
  rcases hext.2 with ⟨hsigil | hsigil, -⟩ | hstars
  · rw [hsigil] at htext
    cases htext
  · rw [hsigil] at htext
    cases htext
  · have hall : ∀ c ∈ w, c = '*' := by simpa using hstars
    have hnil : TypeText.bare w = [] := TypeText.bare_append_of_stars hall []
    simp [hnil] at hbare

/-- A token that is the latest one stands by itself. -/
theorem eq_of_place_eq_cons (hbefore : ∀ a ∈ before, a.text ≠ [])
    (h : place before x = x :: rest) : rest = before := by
  have hplaced := placed before x
  rw [h] at hplaced
  generalize hafter : x :: rest = after at hplaced
  cases hplaced with
  | joined last old hold =>
    have hnil : last.text = [] := by
      have := congrArg Token.text (List.cons.inj hafter).1
      simpa using this
    exact absurd hnil (hbefore last (by simp [hold]))
  | signed last old =>
    have := congrArg List.length (congrArg Token.text (List.cons.inj hafter).1)
    simp at this
    omega
  | closed w head inner old hword =>
    rw [hword] at hafter
    cases hafter
  | apart => exact (List.cons.inj hafter).2

/-- **Tokens that agree after one more token agreed before.** -/
theorem place_injective (hbefore : ∀ a ∈ before, a.text ≠ [])
    (hbefore' : ∀ a ∈ before', a.text ≠ []) (h : place before x = place before' x) :
    before = before' := by
  have hplaced := placed before x
  have hplaced' := placed before' x
  generalize hafter : place before x = after at h hplaced
  rw [← h] at hplaced'
  cases hplaced with
  | apart => exact eq_of_place_eq_cons hbefore' h.symm
  | joined last rest hb hext =>
    generalize hafter' : last.append x.text :: rest = after' at hplaced'
    cases hplaced' with
    | apart => exact (eq_of_place_eq_cons hbefore (hafter.trans hafter')).symm
    | joined last' rest' hb' =>
      obtain ⟨hlast, rfl⟩ := List.cons.inj hafter'
      rw [hb, hb', append_injective hlast]
    | signed _ _ _ _ hsignature =>
      rw [extends?_of_paren (head?_of_isSignature hsignature)] at hext
      cases hext
    | closed w head inner rest' hword hbare =>
      subst hword
      exact absurd (List.cons.inj hafter').1 (append_ne_braceGroup hext hbare)
  | signed last rest hb _ hsignature =>
    generalize hafter' : last.append (' ' :: x.text) :: rest = after' at hplaced'
    cases hplaced' with
    | apart => exact (eq_of_place_eq_cons hbefore (hafter.trans hafter')).symm
    | joined last' rest' hb' hext =>
      rw [extends?_of_paren (head?_of_isSignature hsignature)] at hext
      cases hext
    | signed last' rest' hb' =>
      obtain ⟨hlast, rfl⟩ := List.cons.inj hafter'
      rw [hb, hb', append_injective hlast]
    | closed w head inner rest' hword hbare =>
      subst hword
      exact absurd hbare (bare_ne_of_isSignature hsignature)
  | closed w head inner rest hword hbare hb =>
    subst hword
    generalize hafter' : braceGroup _ _ :: rest = after' at hplaced'
    cases hplaced' with
    | apart => exact (eq_of_place_eq_cons hbefore (hafter.trans hafter')).symm
    | joined last' rest' hb' hext =>
      exact absurd (List.cons.inj hafter').1.symm (append_ne_braceGroup hext hbare)
    | signed _ _ _ _ hsignature => exact absurd hbare (bare_ne_of_isSignature hsignature)
    | closed w' head' inner' rest' hword' hbare' hb' =>
      cases hword'
      obtain rfl : head = head' := List.append_cancel_right (hbare.symm.trans hbare')
      obtain ⟨hgroup, rfl⟩ := List.cons.inj hafter'
      have hinner : inner.reverse = inner'.reverse :=
        List.append_cancel_right (Token.group.inj hgroup).2.2
      rw [hb, hb', List.reverse_injective hinner]

theorem place_text_ne_nil (hbefore : ∀ a ∈ before, a.text ≠ []) (hx : x.text ≠ []) :
    ∀ a ∈ place before x, a.text ≠ [] := by
  have hplaced := placed before x
  generalize place before x = after at hplaced
  cases hplaced with
  | joined last rest hb | signed last rest hb =>
    subst hb
    obtain ⟨hlast, hrest⟩ := List.forall_mem_cons.1 hbefore
    exact List.forall_mem_cons.2 ⟨by simp [hlast], hrest⟩
  | closed w head inner rest _ _ hb =>
    subst hb
    refine List.forall_mem_cons.2 ⟨List.cons_ne_nil _ _, fun a ha => hbefore a ?_⟩
    simp [ha]
  | apart => exact List.forall_mem_cons.2 ⟨hx, hbefore⟩

theorem foldl_place_text_ne_nil {xs : List Token} (hbefore : ∀ a ∈ before, a.text ≠ [])
    (hxs : ∀ a ∈ xs, a.text ≠ []) : ∀ a ∈ xs.foldl place before, a.text ≠ [] := by
  induction xs generalizing before with
  | nil => exact hbefore
  | cons x xs ih =>
    obtain ⟨hx, hxs⟩ := List.forall_mem_cons.1 hxs
    exact ih (place_text_ne_nil hbefore hx) hxs

theorem foldl_place_inj {xs : List Token} (hbefore : ∀ a ∈ before, a.text ≠ [])
    (hbefore' : ∀ a ∈ before', a.text ≠ []) (hxs : ∀ a ∈ xs, a.text ≠ []) :
    xs.foldl place before = xs.foldl place before' ↔ before = before' := by
  refine ⟨fun h => ?_, fun h => by rw [h]⟩
  induction xs generalizing before before' with
  | nil => exact h
  | cons x xs ih =>
    obtain ⟨hx, hxs⟩ := List.forall_mem_cons.1 hxs
    have hplace := ih (place_text_ne_nil hbefore hx) (place_text_ne_nil hbefore' hx) hxs h
    exact place_injective hbefore hbefore' hplace

/-! ## A word with a brace behind it -/

/-- A word either folds what an open brace before it holds, or stands by itself. -/
theorem closed_or_alone (w : Text) (before : List Token) :
    (closeBrace? w before).getD (word w :: before) = word w :: before ∨
      ∃ head inner rest, TypeText.bare w = head ++ ['}'] ∧ before = inner ++ openBrace :: rest ∧
        (∀ a ∈ inner, a.Settled) ∧ (closeBrace? w before).getD (word w :: before) =
          braceGroup (inner.reverse ++ if head.isEmpty then [] else [word head])
            (TypeText.stars w) :: rest := by
  cases hclose : closeBrace? w before with
  | none => exact Or.inl rfl
  | some after => exact Or.inr (closeBrace?_eq_some_iff.1 hclose)

/-- **A word and the word of a brace behind it** may be placed as one word iff the brace
    takes the word up: it stands by itself, a brace is open before it, and the closing
    brace has only stars behind it. -/
theorem place_closing_iff (hne : w ≠ []) (hplain : ∀ c ∈ w, PlainChar c) :
    place (place before (word w)) (word ('}' :: v)) = place before (word (w ++ '}' :: v)) ↔
      place before (word w) = word w :: before ∧ openBrace ∈ before ∧ w ≠ ['{'] ∧
        ∀ c ∈ v, c = '*' := by
  have hhead : ∀ c, ¬ PlainChar c → (w ++ '}' :: v).head? ≠ some c := fun c hc => by
    rw [List.head?_append_of_ne_nil w hne]
    exact head?_ne_of_plain hplain hc
  rw [place_word (w := '}' :: v) (by simp) (by simp) ⟨'}', by simp, by decide⟩,
    place_word (hhead _ (by decide)) (hhead _ (by decide)) ⟨'}', by simp, by decide⟩]
  constructor
  · intro h
    have hother : word ('}' :: v) ≠ word (w ++ '}' :: v) := by simpa using hne
    rcases closed_or_alone ('}' :: v) (place before (word w)) with
      halone | ⟨head, inner, rest, hbare, hplace, hinner, hclosed⟩ <;>
    rcases closed_or_alone (w ++ '}' :: v) before with
      halone' | ⟨head', inner', rest', hbare', hold, -, hclosed'⟩
    · rw [halone, halone'] at h
      exact absurd (List.cons.inj h).1 hother
    · rw [halone, hclosed'] at h
      cases h
    · rw [hclosed, halone'] at h
      cases h
    · -- the groups agree, so the last token inside is the word
      obtain rfl : head' = w ++ head := by
        rw [TypeText.bare_append ⟨'}', List.mem_cons_self, by decide⟩, hbare,
          ← List.append_assoc] at hbare'
        exact List.append_cancel_right hbare'.symm
      rw [hclosed, hclosed'] at h
      obtain ⟨hgroup, rfl⟩ := List.cons.inj h
      have hlist := (Token.group.inj hgroup).2.2
      cases head with
      | cons c head =>
        have hlast := List.append_inj_right' hlist (by simp [hne])
        simp [hne] at hlast
      | nil =>
        obtain rfl : inner = word w :: inner' := by
          simpa [hne, List.reverse_eq_iff] using hlist
        have hv : v = TypeText.stars ('}' :: v) := by
          have := TypeText.bare_append_stars ('}' :: v)
          rw [hbare] at this
          exact (List.cons.inj this).2.symm
        refine ⟨by rw [hplace, hold]; rfl, by simp [hold], ?_, fun c hc => ?_⟩
        · rintro rfl
          exact absurd (hinner _ List.mem_cons_self) (by decide)
        · rw [hv] at hc
          exact TypeText.eq_star_of_mem_stars hc
  · rintro ⟨hword, hopen, hbrace, hstars⟩
    obtain ⟨inner, rest, rfl, hnot⟩ := List.eq_append_cons_of_mem hopen
    have hinner : ∀ a ∈ inner, a.Settled := fun a ha => settled_iff.2 fun heq => hnot (heq ▸ ha)
    have hbare : ∀ u : Text, TypeText.bare (u ++ '}' :: v) = u ++ ['}'] := fun u => by
      rw [List.append_cons, TypeText.bare_append_of_stars hstars, TypeText.bare_of_getLast?]
      simp
    have hall : ∀ u : Text, TypeText.stars (u ++ '}' :: v) = v := fun u => by
      rw [List.append_cons, TypeText.stars_append hstars]
      simp
    have hsettled : (word w).Settled := settled_iff.2 fun heq => hbrace (Token.word.inj heq)
    have hclose : closeBrace? ('}' :: v) (word w :: (inner ++ openBrace :: rest)) =
        some (braceGroup (inner.reverse ++ [word w]) v :: rest) := by
      refine closeBrace?_eq_some_iff.2 ⟨[], word w :: inner, rest, hbare [], rfl,
        List.forall_mem_cons.2 ⟨hsettled, hinner⟩, ?_⟩
      have := hall []
      simp_all
    have hclose' : closeBrace? (w ++ '}' :: v) (inner ++ openBrace :: rest) =
        some (braceGroup (inner.reverse ++ [word w]) v :: rest) := by
      refine closeBrace?_eq_some_iff.2 ⟨w, inner, rest, hbare w, rfl, hinner, ?_⟩
      simp [hall w, hne]
    rw [hword, hclose, hclose']
    rfl

end

end Token

/-! ## What is read of a text -/

section
variable {t u blanks : Text}

/-- What of a text is read as code: the whole text if it is in order, or else what stands
    before its comment. -/
def codeOf (t : Text) : Text :=
  match tokenizeAll t with
  | .ok _ => t
  | .error _ => ((cutComment? t).map Prod.fst).getD t

theorem codeOf_of_pieces (h : ∃ ps, Pieces t ps) : codeOf t = t := by
  obtain ⟨ps, hps⟩ := h
  rw [codeOf, tokenizeAll_eq_ok.2 ⟨ps, hps, rfl⟩]

theorem codeOf_of_comment {before after : Text} (h : ¬ ∃ ps, Pieces t ps)
    (hcut : cutComment? t = some (before, after)) : codeOf t = before := by
  cases hall : tokenizeAll t with
  | ok ts =>
    obtain ⟨ps, hps, -⟩ := tokenizeAll_eq_ok.1 hall
    exact absurd ⟨ps, hps⟩ h
  | error e =>
    rw [codeOf, hall, hcut]
    rfl

/-- The search for a comment goes on behind a text as it left it. -/
theorem cutCommentFrom?_append (quoted : Bool) (depth : Nat) (t u : Text) :
    cutCommentFrom? quoted depth (t ++ u) =
      ((cutCommentFrom? quoted depth t).map fun (before, after) => (before, after ++ u)).or
        (let s := t.foldl (fun s c => commentState s.1 s.2 c) (quoted, depth)
         (cutCommentFrom? s.1 s.2 u).map fun (before, after) => (t ++ before, after)) := by
  induction t generalizing quoted depth with
  | nil =>
    cases h : cutCommentFrom? quoted depth u <;> simp [cutCommentFrom?, h]
  | cons c t ih =>
    rw [List.cons_append, cutCommentFrom?, cutCommentFrom?]
    split
    · rfl
    · rw [List.foldl_cons]
      generalize commentState quoted depth c = s
      obtain ⟨quoted, depth⟩ := s
      dsimp only
      rw [ih]
      cases cutCommentFrom? quoted depth t <;> simp [Function.comp_def]

theorem Unenclosed.cutComment?_append (ht : Unenclosed t) (u : Text) :
    cutComment? (t ++ u) =
      ((cutComment? t).map fun (before, after) => (before, after ++ u)).or
        ((cutComment? u).map fun (before, after) => (t ++ before, after)) := by
  rw [cutComment?, cutCommentFrom?_append, show t.foldl _ (false, 0) = (false, 0) from ht]
  rfl

theorem Unenclosed.append (ht : Unenclosed t) (hu : Unenclosed u) : Unenclosed (t ++ u) := by
  rw [Unenclosed, List.foldl_append, show t.foldl _ (false, 0) = (false, 0) from ht]
  exact hu

theorem unenclosed_blanks (h : ∀ c ∈ blanks, c = ' ' ∨ c = '\t') : Unenclosed blanks := by
  induction blanks with
  | nil => rfl
  | cons c blanks ih =>
    obtain ⟨hc, hblanks⟩ := List.forall_mem_cons.1 h
    have := ih hblanks
    rcases hc with rfl | rfl <;> exact this

/-- A brace behind a text hides no comment and begins none. -/
theorem cutComment?_closing {pre : Text} (hpre : Unenclosed pre)
    (hblanks : ∀ c ∈ blanks, c = ' ' ∨ c = '\t') (post : Text) :
    cutComment? (pre ++ blanks ++ '}' :: post) =
      ((cutComment? pre).map fun (before, after) => (before, after ++ blanks ++ '}' :: post)).or
        ((cutComment? post).map fun (before, after) =>
          (pre ++ blanks ++ '}' :: before, after)) := by
  have hbrace : Unenclosed (blanks ++ ['}']) := (unenclosed_blanks hblanks).append (by decide)
  have hsemi : ';' ∉ blanks ++ ['}'] := by
    intro hmem
    rcases List.mem_append.1 hmem with hmem | hmem
    · rcases hblanks _ hmem with h | h <;> exact absurd h (by decide)
    · exact absurd hmem (by decide)
  have hsplit : pre ++ blanks ++ '}' :: post = pre ++ (blanks ++ ['}'] ++ post) := by simp
  rw [hsplit, hpre.cutComment?_append, hbrace.cutComment?_append, cutComment?_eq_none hsemi]
  cases cutComment? pre <;> cases cutComment? post <;> simp

end

/-! ## Blanks before a closing brace -/

/-- The plain characters that a text ends with: what stands behind its last blank, comma,
    quote or encloser. -/
def lastWord (t : Text) : Text := (t.reverse.takeWhile (PlainChar ·)).reverse

/-- A closing brace takes the last word of the text before it up: the word is a token by
    itself, a brace is open before it, and only stars follow the closing brace. -/
structure TakesWord (pre post : Text) : Prop where
  word : ∃ ts, tokenize pre = .ok (ts ++ [.word (lastWord pre)]) ∧ openBrace ∈ ts
  brace : lastWord pre ≠ ['{']
  stars : ∀ c ∈ post.takeWhile (PlainChar ·), c = '*'

section
variable {pre front blanks post w : Text} {fs ps : List Token}

theorem lastWord_append (hplain : ∀ c ∈ w, PlainChar c)
    (hfront : ∀ c ∈ front.getLast?, ¬ PlainChar c) : lastWord (front ++ w) = w := by
  have hnone : front.reverse.takeWhile (PlainChar ·) = [] := by
    cases hrev : front.reverse with
    | nil => rfl
    | cons c rest =>
      have hlast : c ∈ front.getLast? := by
        rw [← List.head?_reverse, hrev]
        rfl
      simp [hfront c hlast]
  rw [lastWord, List.reverse_append, List.takeWhile_append_of_pos (by simpa using hplain), hnone]
  simp

/-- The word of a closing brace ends with the plain characters behind it. -/
theorem pieces_closing_iff (hplain : ∀ c ∈ w, PlainChar c) :
    Pieces (w ++ '}' :: post) ps ↔
      ∃ us, Pieces (post.dropWhile (PlainChar ·)) us ∧
        ps = word (w ++ '}' :: post.takeWhile (PlainChar ·)) :: us := by
  have hall : ∀ c ∈ w ++ '}' :: post.takeWhile (PlainChar ·), PlainChar c := by
    refine List.forall_mem_append.2 ⟨hplain, List.forall_mem_cons.2 ⟨by decide, fun c hc => ?_⟩⟩
    simpa using List.mem_takeWhile_imp hc
  have hsigil : w ++ '}' :: post.takeWhile (PlainChar ·) ∉ sigils := by
    intro hmem
    have hbrace : '}' ∈ w ++ '}' :: post.takeWhile (PlainChar ·) := by simp
    rcases mem_sigils.1 hmem with h | h | h <;> rw [h] at hbrace <;>
      exact absurd hbrace (by decide)
  have hsplit : w ++ '}' :: post = w ++ '}' :: post.takeWhile (PlainChar ·) ++
      post.dropWhile (PlainChar ·) := by simp
  rw [hsplit, pieces_word_append_iff (by simp) hall]
  intro c hc
  have hc' := List.head?_dropWhile_not (fun c : Char => decide (PlainChar c)) post
  rw [Option.mem_def.1 hc] at hc'
  exact ⟨by simpa using hc', fun _ => hsigil⟩

/-- With blanks before it, a closing brace begins a word of its own. -/
theorem pieces_blanks_closing_iff (hw : w ≠ []) (hplain : ∀ c ∈ w, PlainChar c)
    (hne : blanks ≠ []) (hblanks : ∀ c ∈ blanks, c = ' ' ∨ c = '\t') :
    Pieces (w ++ blanks ++ '}' :: post) ps ↔
      ∃ us, Pieces (post.dropWhile (PlainChar ·)) us ∧
        ps = word w :: word ('}' :: post.takeWhile (PlainChar ·)) :: us := by
  have hblank : ∀ c ∈ (blanks ++ '}' :: post).head?, ¬ PlainChar c ∧ (c = '"' → w ∉ sigils) := by
    intro c hc
    rw [List.head?_append_of_ne_nil _ hne] at hc
    rcases hblanks c (List.mem_of_head? hc) with rfl | rfl <;> exact ⟨by decide, by simp⟩
  have hclosing : ∀ us, Pieces ('}' :: post) us ↔ _ := fun us =>
    pieces_closing_iff (w := []) (List.forall_mem_nil _)
  rw [List.append_assoc, pieces_word_append_iff hw hplain hblank]
  simp only [pieces_blanks_iff hblanks, hclosing, List.nil_append]
  constructor
  · rintro ⟨_, ⟨us, hus, rfl⟩, rfl⟩
    exact ⟨us, hus, rfl⟩
  · rintro ⟨us, hus, rfl⟩
    exact ⟨_, ⟨us, hus, rfl⟩, rfl⟩

/-- **In a text in order**, the blanks before a closing brace may be left out iff nothing
    stands before them that the brace could go on with, or the brace takes it up. -/
theorem Pieces.delete_blanks (hpre : Unenclosed pre) (hne : blanks ≠ [])
    (hblanks : ∀ c ∈ blanks, c = ' ' ∨ c = '\t')
    (h : Pieces (pre ++ blanks ++ '}' :: post) ps) :
    ∃ ps', Pieces (pre ++ '}' :: post) ps' ∧
      (arrange ps' = arrange ps ↔ lastWord pre = [] ∨ TakesWord pre post) := by
  obtain ⟨front, w, fs, rfl, hfront, hplain, hlast⟩ :=
    hpre.exists_detached (u := blanks ++ '}' :: post) ⟨ps, by rwa [← List.append_assoc]⟩
  have hword : lastWord (front ++ w) = w := lastWord_append hplain hlast
  by_cases hw : w = []
  · subst hw
    rw [List.append_nil] at h ⊢
    have hnone : lastWord front = [] := by rwa [List.append_nil] at hword
    rw [List.append_assoc, hfront.pieces_append_iff] at h
    simp only [pieces_blanks_iff hblanks] at h
    exact ⟨ps, hfront.pieces_append_iff.2 h, iff_of_true rfl (Or.inl hnone)⟩
  rw [List.append_assoc, List.append_assoc, ← List.append_assoc w, hfront.pieces_append_iff] at h
  obtain ⟨_, hrest, rfl⟩ := h
  obtain ⟨us, hus, rfl⟩ := (pieces_blanks_closing_iff hw hplain hne hblanks).1 hrest
  have hclosing := hfront.append ((pieces_closing_iff hplain).2 ⟨us, hus, rfl⟩)
  rw [← List.append_assoc] at hclosing
  refine ⟨_, hclosing, ?_⟩
  -- the tokens behind the brace are the same, so only what it does to those before it counts
  have hbefore : ∀ a ∈ fs.foldl place [], a.text ≠ [] :=
    foldl_place_text_ne_nil (List.forall_mem_nil _) hfront.self.text_ne_nil
  have hword' : ∀ a ∈ place (fs.foldl place []) (word w), a.text ≠ [] :=
    place_text_ne_nil hbefore hw
  have htokens : LlvmAsm.tokenize (front ++ w) =
      .ok (place (fs.foldl place []) (word w)).reverse := by
    rw [(hfront.append (pieces_word hw hplain)).tokenize, arrange, List.foldl_append]
    rfl
  rw [arrange, arrange, List.reverse_inj, List.foldl_append, List.foldl_append, List.foldl_cons,
    List.foldl_cons, List.foldl_cons, foldl_place_inj (place_text_ne_nil hbefore (by simp [text]))
      (place_text_ne_nil hword' (by simp [text])) hus.text_ne_nil, eq_comm,
    place_closing_iff hw hplain]
  constructor
  · rintro ⟨halone, hopen, hbrace, hstars⟩
    refine Or.inr ⟨⟨(fs.foldl place []).reverse, ?_, List.mem_reverse.2 hopen⟩, ?_, hstars⟩
    · rw [htokens, halone, hword, List.reverse_cons]
    · rwa [hword]
  · rintro (hnone | ⟨⟨ts, hts, hopen⟩, hbrace, hstars⟩)
    · exact absurd (hword.symm.trans hnone) hw
    · rw [htokens, hword] at hts
      have halone : place (fs.foldl place []) (word w) = word w :: ts.reverse := by
        have := congrArg List.reverse (Except.ok.inj hts)
        simpa using this
      have hall := eq_of_place_eq_cons hbefore halone
      rw [hall] at halone
      rw [hword] at hbrace
      exact ⟨halone, by rw [← hall]; simpa using hopen, hbrace, hstars⟩

end

/-! ## Blanks before a closing brace, in a line -/

section
variable {pre blanks post : Text} {number : Nat} {ts : List Token}

/-- Blanks before a closing brace put nothing in order that is not in order without
    them. -/
theorem Unenclosed.exists_pieces_blanks (hpre : Unenclosed pre) (hne : blanks ≠ [])
    (hblanks : ∀ c ∈ blanks, c = ' ' ∨ c = '\t') (h : ∃ ps, Pieces (pre ++ '}' :: post) ps) :
    ∃ ps, Pieces (pre ++ blanks ++ '}' :: post) ps := by
  obtain ⟨front, w, fs, rfl, hfront, hplain, -⟩ := hpre.exists_detached h
  obtain ⟨ps, hps⟩ := h
  rw [List.append_assoc, hfront.pieces_append_iff] at hps
  obtain ⟨us, hus, rfl⟩ := hps
  rw [List.append_assoc, List.append_assoc, ← List.append_assoc w]
  by_cases hw : w = []
  · subst hw
    exact ⟨_, hfront.append ((pieces_blanks_iff hblanks).2 hus)⟩
  · obtain ⟨rest, hrest, -⟩ := (pieces_closing_iff hplain).1 hus
    have := (pieces_blanks_closing_iff hw hplain hne hblanks).2 ⟨rest, hrest, rfl⟩
    exact ⟨_, hfront.append this⟩

/-- **Blanks before a closing brace** outside quotes and enclosers may be left out without
    a fault. The tokens are the same iff nothing stands before the blanks that the brace
    could go on with, or a word that it takes up; only in a comment, where `read` ends
    before the brace, nothing is said about them. -/
theorem tokensOf_delete_blanks (hpre : Unenclosed pre) (hne : blanks ≠ [])
    (hblanks : ∀ c ∈ blanks, c = ' ' ∨ c = '\t')
    (h : tokensOf (pre ++ blanks ++ '}' :: post) number = .ok ts) :
    ∃ ts', tokensOf (pre ++ '}' :: post) number = .ok ts' ∧
      ∀ read, codeOf (pre ++ blanks ++ '}' :: post) = pre ++ blanks ++ '}' :: read →
        (ts' = ts ↔ lastWord pre = [] ∨ TakesWord pre read) := by
  simp only [tokensOf_eq_ok] at h ⊢
  by_cases horder : ∃ ps, Pieces (pre ++ blanks ++ '}' :: post) ps
  · obtain ⟨ps, hps⟩ := horder
    obtain ⟨ps', hps', hiff⟩ := hps.delete_blanks hpre hne hblanks
    rw [hps.tokenize] at h
    cases h
    refine ⟨_, hps'.tokenize, fun read hread => ?_⟩
    rw [codeOf_of_pieces ⟨ps, hps⟩] at hread
    obtain rfl : post = read := (List.cons.inj (List.append_cancel_left hread)).2
    exact hiff
  -- the text is read up to its comment, and so is the text without the blanks
  have horder' : ¬ ∃ ps, Pieces (pre ++ '}' :: post) ps := fun h' =>
    horder (hpre.exists_pieces_blanks hne hblanks h')
  have hcut' := cutComment?_closing hpre (List.forall_mem_nil _) post
  rw [List.append_nil] at hcut'
  obtain ⟨ps, hps, -⟩ | ⟨before, after, ps, hcut, hps, rfl⟩ := tokenize_cases h
  · exact absurd ⟨ps, hps⟩ horder
  have hcode := codeOf_of_comment horder hcut
  rw [cutComment?_closing hpre hblanks] at hcut
  cases hcomment : cutComment? pre with
  | some parts =>
    obtain ⟨b, a⟩ := parts
    rw [hcomment] at hcut hcut'
    obtain ⟨rfl, rfl⟩ := Prod.mk.inj (Option.some.inj hcut)
    refine ⟨_, tokenize_of_comment horder' hcut' hps, fun read hread => ?_⟩
    rw [hcode, append_of_cutComment? hcomment] at hread
    have := congrArg List.length hread
    simp at this
  | none =>
    rw [hcomment] at hcut hcut'
    obtain ⟨⟨b, a⟩, hpost, heq⟩ := Option.map_eq_some_iff.1 hcut
    obtain ⟨rfl, rfl⟩ := Prod.mk.inj heq
    rw [hpost] at hcut'
    obtain ⟨ps', hps', hiff⟩ := hps.delete_blanks hpre hne hblanks
    refine ⟨_, tokenize_of_comment horder' hcut' hps', fun read hread => ?_⟩
    rw [hcode] at hread
    obtain rfl : b = read := (List.cons.inj (List.append_cancel_left hread)).2
    rw [List.append_left_inj, hiff]

end

/-- The brace takes the word before it up. The text has a comment that is not in order. -/
theorem tokensOf_delete_blanks_of_comment :
    let pre : Text := "%t = type \x7b i32, [2 x i8] , i8"
    let post : Text := "* ; see ("
    let array := group "[2 x i8]" .bracket [word "2", word "x", word "i8"]
    let fields := [word "i32", separator, array, separator, word "i8"]
    let ts := [word "%t", word "=", word "type", braceGroup fields ['*']] ++ commentTokens " see ("
    Unenclosed pre ∧ tokensOf (pre ++ " \t" ++ '}' :: post) 3 = .ok ts ∧
      tokensOf (pre ++ '}' :: post) 3 = .ok ts := by
  intro pre post array fields ts
  have harray : Pieces "2 x i8" [word "2", word "x", word "i8"] :=
    ⟨by decide, .cons (.word rfl) (.cons (.word rfl) (.cons (.word rfl) .nil))⟩
  have harray' : Lexeme.Reads (.run '[' "2 x i8]") array := .group rfl harray.tokenize
  let front := [word "%t", word "=", word "type", openBrace, word "i32", separator, array,
    separator]
  have hpre : Pieces pre (front ++ [word "i8"]) := by
    refine ⟨by decide, ?_⟩
    exact .cons (.word rfl) (.cons (.word rfl) (.cons (.word rfl) (.cons (.word rfl)
      (.cons (.word rfl) (.cons .comma (.cons harray' (.cons .comma (.cons (.word rfl) .nil))))))))
  have hcode : Pieces (pre ++ " \t" ++ "\x7d* ") (front ++ [word "i8", word "\x7d*"]) := by
    refine ⟨by decide, ?_⟩
    exact .cons (.word rfl) (.cons (.word rfl) (.cons (.word rfl) (.cons (.word rfl)
      (.cons (.word rfl) (.cons .comma (.cons harray' (.cons .comma (.cons (.word rfl)
      (.cons (.word rfl) .nil)))))))))
  have horder : ¬ ∃ ps, Pieces (pre ++ " \t" ++ '}' :: post) ps := by
    rintro ⟨ps, hps⟩
    exact absurd hps.order (by decide)
  have hcut : cutComment? (pre ++ " \t" ++ '}' :: post) =
      some (pre ++ " \t" ++ "\x7d* ", " see (".toList) := by decide
  have hunenclosed : Unenclosed pre := by decide
  have hts : tokensOf (pre ++ " \t" ++ '}' :: post) 3 = .ok ts := by
    rw [tokensOf_eq_ok, tokenize_of_comment horder hcut hcode]
    decide
  have htakes : TakesWord pre "* " := by
    refine ⟨⟨front, ?_, by decide⟩, by decide, ?_⟩
    · rw [hpre.tokenize]
      decide
    · have hstar : List.takeWhile (PlainChar ·) "* ".toList = ['*'] := by decide
      rw [hstar]
      exact List.forall_mem_singleton.2 rfl
  have hblanks : ∀ c ∈ " \t".toList, c = ' ' ∨ c = '\t' :=
    List.forall_mem_cons.2 ⟨Or.inl rfl, List.forall_mem_singleton.2 (Or.inr rfl)⟩
  obtain ⟨ts', hts', hiff⟩ := tokensOf_delete_blanks hunenclosed (by decide) hblanks hts
  have hsame := (hiff "* " (codeOf_of_comment horder hcut)).2 (Or.inr htakes)
  exact ⟨hunenclosed, hts, hsame ▸ hts'⟩

/-- Only the last brace of a word closes one, so two of them leave the outer group open. -/
theorem open_of_adjacent_closings :
    let pre : Text := "\x7b i32, \x7b i8, i8 \x7d"
    let outer := [word "i32", separator, braceGroup [word "i8", separator, word "i8"] []]
    let inner := [word "i8", separator, word "i8", word "\x7d"]
    Unenclosed pre ∧ tokensOf (pre ++ " \x7d") 1 = .ok [braceGroup outer []] ∧
      tokensOf (pre ++ "\x7d") 1 =
        .ok [openBrace, word "i32", separator, braceGroup inner []] ∧
      [braceGroup outer []] ≠ [openBrace, word "i32", separator, braceGroup inner []] := by
  intro pre outer inner
  have hspaced : Pieces (pre ++ " \x7d") [openBrace, word "i32", separator, openBrace, word "i8",
      separator, word "i8", word "\x7d", word "\x7d"] := by
    refine ⟨by decide, ?_⟩
    exact .cons (.word rfl) (.cons (.word rfl) (.cons .comma (.cons (.word rfl) (.cons (.word rfl)
      (.cons .comma (.cons (.word rfl) (.cons (.word rfl) (.cons (.word rfl) .nil))))))))
  have hjoined : Pieces (pre ++ "\x7d") [openBrace, word "i32", separator, openBrace, word "i8",
      separator, word "i8", word "\x7d\x7d"] := by
    refine ⟨by decide, ?_⟩
    exact .cons (.word rfl) (.cons (.word rfl) (.cons .comma (.cons (.word rfl) (.cons (.word rfl)
      (.cons .comma (.cons (.word rfl) (.cons (.word rfl) .nil)))))))
  refine ⟨by decide, ?_, ?_, by decide⟩
  · rw [tokensOf_eq_ok, hspaced.tokenize]
    decide
  · rw [tokensOf_eq_ok, hjoined.tokenize]
    decide

end LlvmAsm
