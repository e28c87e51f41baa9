/-
  Listings of pieces.

  The lines of a source may be read in two runs if no statement goes on from the first
  piece to the second one: the second run begins with the number and the registry that the
  first one left. `Listing.ofLines_append` is the equation between the readings; in
  `Listing.run_append`, the registry is threaded through both runs.

  The two differ in one point. Lines are joined before the first one is read, so that a
  table that is left open in the second piece fails before the types of the first piece
  are met.
-/
import LlvmAsm.Proofs.Listing

namespace LlvmAsm

open Reading

/-- The nodes of logical lines in two pieces. -/
theorem nodesOf_append (lines lines' : List LogicalLine) :
    nodesOf (lines ++ lines') = do
      let nodes ← nodesOf lines
      let nodes' ← nodesOf lines'
      return nodes ++ nodes' := by
  induction lines with
  | nil => simp [nodesOf]
  | cons line rest ih =>
    rw [List.cons_append, nodesOf, ih, nodesOf]
    simp only [bind_assoc, pure_bind, List.append_assoc]

namespace Listing

/-- The listing of two pieces. -/
def followedBy (l l' : Listing) : Listing := ⟨l.nodes ++ l'.nodes, l.stubs ++ l'.stubs⟩

section
variable {base : Nat} {lines lines' : List Text}

/-- Without deferral, nothing is set aside. -/
theorem stubs_of_eager {l : Listing} (h : (ofLines false base lines).result = .ok l) :
    l.stubs = [] := by
  obtain ⟨o, ho, h⟩ := exists_of_bind_ok h
  obtain ⟨nodes, -, h⟩ := exists_of_bind_ok h
  obtain ⟨-, rfl⟩ := Outline.ofLines_eager_eq_ok.1 ho
  cases h
  rfl

/-- Without deferral, nothing is noted while lines are joined. -/
theorem noted_outline (base : Nat) (lines : List Text) :
    (Outline.ofLines false base lines).noted = [] := by
  rw [Outline.ofLines_eager, noted_ofExcept]

/-- Without deferral, only a table can be left open. -/
theorem cause_outline {e : Failure} (h : (Outline.ofLines false base lines).result = .error e) :
    e.cause = .openTable := by
  have hfunction : (Progress.start.statements (base + 1) lines).function = none :=
    Progress.function_statements _ _ _
  rw [Outline.ofLines_eager, result_ofExcept] at h
  generalize Progress.start.statements (base + 1) lines = p at h hfunction
  rw [Progress.finish, hfunction] at h
  cases htable : p.inTable with
  | false =>
    rw [htable] at h
    cases h
  | true =>
    rw [htable] at h
    cases h
    rfl

/-- Lines that can be joined are read like the logical lines that they make. -/
theorem ofLines_of_outline {o : Outline} (ho : (Outline.ofLines false base lines).result = .ok o) :
    ofLines false base lines = (⟨·, o.stubs⟩) <$> nodesOf o.lines := by
  have houtline : Outline.ofLines false base lines = pure o :=
    Reading.ext ho (noted_outline base lines)
  rw [ofLines, houtline, pure_bind, bind_pure_comp]

/-- The logical lines of both pieces are read one after the other, if the lines of the
    second piece can be joined. -/
theorem ofLines_append_of_outline {l : Listing} (h : (ofLines false base lines).result = .ok l)
    (hnew : StartsAnew lines') {o' : Outline}
    (ho' : (Outline.ofLines false (base + lines.length) lines').result = .ok o') :
    ofLines false base (lines ++ lines') = do
      let l ← ofLines false base lines
      let l' ← ofLines false (base + lines.length) lines'
      return l.followedBy l' := by
  obtain ⟨o, ho, -⟩ := readable_of_ofLines h
  have hboth : (Outline.ofLines false base (lines ++ lines')).result =
      .ok ⟨o.lines ++ o'.lines, o'.stubs⟩ := by
    rw [Outline.ofLines_append ho hnew, result_map, ho']
    rfl
  obtain ⟨-, rfl⟩ := Outline.ofLines_eager_eq_ok.1 ho
  rw [ofLines_of_outline hboth, ofLines_of_outline ho, ofLines_of_outline ho', nodesOf_append]
  simp only [← bind_pure_comp, bind_assoc, pure_bind, followedBy, List.nil_append]

end

/-- **Readings of pieces.** If the first piece can be read and the second one begins anew,
    then to read both at once is to join the lines of the second piece, to read the first
    piece and then the second one. -/
theorem ofLines_append {base : Nat} {lines lines' : List Text} {l : Listing}
    (h : (ofLines false base lines).result = .ok l) (hnew : StartsAnew lines') :
    ofLines false base (lines ++ lines') = do
      let _ ← Outline.ofLines false (base + lines.length) lines'
      let l ← ofLines false base lines
      let l' ← ofLines false (base + lines.length) lines'
      return l.followedBy l' := by
  cases ho' : (Outline.ofLines false (base + lines.length) lines').result with
  | ok o' =>
    have houtline : Outline.ofLines false (base + lines.length) lines' = pure o' :=
      Reading.ext ho' (noted_outline _ _)
    rw [ofLines_append_of_outline h hnew ho', houtline, pure_bind]
  | error e =>
    have houtline : Outline.ofLines false (base + lines.length) lines' = fail e :=
      Reading.ext ho' (noted_outline _ _)
    obtain ⟨o, ho, -⟩ := readable_of_ofLines h
    rw [ofLines, Outline.ofLines_append ho hnew, houtline]
    rfl

/-- **Runs of pieces.** Let the first piece be read without failure, and let the second
    piece not begin with the destinations of an `invoke`. If the second piece can be read
    after the first one, then both can be read at once: the nodes are those of the two
    runs in order, and the registry is the same. If the second piece fails, then both fail
    with the same failure, and the registry is the same unless a table was left open. -/
theorem run_append {base : Nat} {lines lines' : List Text} {l : Listing}
    {known known₁ : Registry} (h : (ofLines false base lines).run known = (.ok l, known₁))
    (hnew : StartsAnew lines') :
    (∀ (l' : Listing) (known₂ : Registry),
      (ofLines false (base + lines.length) lines').run known₁ = (.ok l', known₂) →
        (ofLines false base (lines ++ lines')).run known =
          (.ok ⟨l.nodes ++ l'.nodes, []⟩, known₂)) ∧
    (∀ (e : Failure) (known₂ : Registry),
      (ofLines false (base + lines.length) lines').run known₁ = (.error e, known₂) →
        ((ofLines false base (lines ++ lines')).run known).1 = .error e ∧
          (e.cause ≠ .openTable →
            ((ofLines false base (lines ++ lines')).run known).2 = known₂)) := by
  have hl : (ofLines false base lines).result = .ok l := congrArg Prod.fst h
  have houtline : ∀ o', (Outline.ofLines false (base + lines.length) lines').result = .ok o' →
      (ofLines false base (lines ++ lines')).run known =
        (l.followedBy <$> ofLines false (base + lines.length) lines').run known₁ := by
    intro o' ho'
    rw [ofLines_append_of_outline hl hnew ho', run_bind, h]
    dsimp only
    rw [bind_pure_comp]
  constructor
  · intro l' known₂ h'
    have hl' : (ofLines false (base + lines.length) lines').result = .ok l' :=
      congrArg Prod.fst h'
    obtain ⟨o', ho', -⟩ := readable_of_ofLines hl'
    rw [houtline o' ho', run_map, h']
    show (Except.ok (l.followedBy l'), known₂) = _
    rw [followedBy, stubs_of_eager hl, stubs_of_eager hl', List.append_nil]
  · intro e known₂ h'
    cases ho' : (Outline.ofLines false (base + lines.length) lines').result with
    | ok o' =>
      rw [houtline o' ho', run_map, h']
      exact ⟨rfl, fun _ => rfl⟩
    | error e' =>
      -- nothing is read then, neither of the second piece nor of both
      have hfail : (ofLines false (base + lines.length) lines').result = .error e' :=
        result_bind_error ho' _
      have he : e' = e := Except.error.inj (hfail.symm.trans (congrArg Prod.fst h'))
      subst he
      refine ⟨?_, fun hcause => absurd (cause_outline ho') hcause⟩
      show (ofLines false base (lines ++ lines')).result = .error e'
      rw [ofLines_append hl hnew, result_bind_error ho']

/-- A table before a blank line and a `store`, and before a table that is left open: the
    types of the table are met before the failure in two runs, but not in one. -/
theorem run_append_of_switch :
    let table : List Text := ["  switch i32 %x, label %d [", "    i32 0, label %a", "  ]"]
    let rest : List Text := ["", "  store i8 0, i8* %p"]
    let opened : List Text := ["", "  switch i32 %y, label %d ["]
    let known : Registry := ⟨["i8"]⟩
    let switch : Node :=
      ⟨11, some "%x".toList, false, .switch "i32" "%x" "%d" [⟨"0", "%a"⟩]⟩
    let store : Node := ⟨15, some "%p".toList, false,
      .store "i8" (.scalar "i8" "0" false) "i8*" (.scalar "i8*" "%p" false)⟩
    (ofLines false 10 table).run known = (.ok ⟨[switch], []⟩, ⟨["i8", "i32"]⟩) ∧
      StartsAnew rest ∧ StartsAnew opened ∧
      (ofLines false 10 (table ++ rest)).run known =
        (.ok ⟨[switch, store], []⟩, ⟨["i8", "i32", "i8*"]⟩) ∧
      ((ofLines false 10 (table ++ opened)).run known).1 = .error ⟨15, .openTable⟩ ∧
      ((ofLines false 10 (table ++ opened)).run known).2 = known := by
  intro table rest opened known switch store
  have htable : (ofLines false 10 table).run known = (.ok ⟨[switch], []⟩, ⟨["i8", "i32"]⟩) := by
    decide +kernel
  have hrest : StartsAnew rest := by
    intro text htext
    obtain rfl := Option.some.inj htext
    decide
  have hopened : StartsAnew opened := by
    intro text htext
    obtain rfl := Option.some.inj htext
    decide
  have hstore : (ofLines false 13 rest).run ⟨["i8", "i32"]⟩ =
      (.ok ⟨[store], []⟩, ⟨["i8", "i32", "i8*"]⟩) := by
    decide +kernel
  have hfail : (ofLines false 13 opened).run ⟨["i8", "i32"]⟩ =
      (.error ⟨15, .openTable⟩, ⟨["i8", "i32"]⟩) := by
    decide +kernel
  refine ⟨htable, hrest, hopened, (run_append htable hrest).1 _ _ hstore,
    ((run_append htable hopened).2 _ _ hfail).1, ?_⟩
  decide +kernel

end Listing

end LlvmAsm
