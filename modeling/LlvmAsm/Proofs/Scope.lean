/-
  The scopes around a metadata id, and the file that they tell.

  The scopes of an id are the id itself, its parent, the parent of that, and so on: a way
  that may end, and may as well go round in a circle. `Metadata.location?` looks at one scope
  more than there are parents. That is enough (`exists_scope?_le`): scopes with a parent
  are keys of the table of parents, so that a longer way has come to one of them twice, and
  whatever it meets from there on, it has met before. `location?_along_scopes` says what a
  source location is without a bound.
-/
import LlvmAsm.Metadata
import Mathlib.Data.Finset.Card
import Mathlib.Data.Fintype.Pigeonhole

namespace LlvmAsm

theorem Table.mem_keys_of_get? {κ α : Type} [DecidableEq κ] {t : Table κ α} {k : κ} {a : α}
    (h : t.get? k = some a) : k ∈ t.entries.map Prod.fst := by
  obtain ⟨es⟩ := t
  induction es with
  | nil => cases h
  | cons e es ih =>
    obtain ⟨key, b⟩ := e
    rw [List.map_cons, List.mem_cons]
    by_cases hk : k = key
    · exact Or.inl hk
    · have hne : (k == key) = false := by simpa using hk
      rw [get?, List.lookup_cons, hne] at h
      exact Or.inr (ih h)

namespace Metadata

/-- The scope that is reached from an id in a number of steps to a parent. -/
def scope? (m : Metadata) (id : Text) : Nat → Option Text
  | 0 => some id
  | steps + 1 => (m.scope? id steps).bind m.parents.get?

/-- The file that the scopes of an id tell: that of the first scope with one, and none if
    no scope has a file, however far it is away. -/
inductive TellsFile (m : Metadata) (id : Text) : Option Text → Prop where
  | first {k : Nat} {scope : Text} {file : SourceFile} (hscope : m.scope? id k = some scope)
      (hfile : m.files.get? scope = some file)
      (hbefore : ∀ j < k, ∀ s, m.scope? id j = some s → m.files.get? s = none) :
      TellsFile m id (some file.path)
  | nowhere (h : ∀ k s, m.scope? id k = some s → m.files.get? s = none) : TellsFile m id none

variable {m : Metadata} {id scope : Text} {k : Nat}

/-! ## The way outwards -/

theorem scope?_add (m : Metadata) (id : Text) (j k : Nat) :
    m.scope? id (j + k) = (m.scope? id j).bind (m.scope? · k) := by
  induction k with
  | zero => simp [scope?]
  | succ k ih =>
    rw [← Nat.add_assoc, scope?, ih, Option.bind_assoc]
    rfl

/-- Further out there are the scopes of the parent. -/
theorem scope?_succ (m : Metadata) (id : Text) (k : Nat) :
    m.scope? id (k + 1) = (m.parents.get? id).bind (m.scope? · k) := by
  rw [Nat.add_comm, scope?_add]
  rfl

/-- A way that is longer than the number of parents comes to one scope twice. -/
theorem exists_scope?_eq (h : m.scope? id k = some scope) (hk : m.parents.size < k) :
    ∃ i j, i < j ∧ j ≤ k ∧ m.scope? id i = m.scope? id j := by
  have hkey : ∀ i < k, ∃ s, m.scope? id i = some s ∧ s ∈ m.parents.entries.map Prod.fst := by
    intro i hi
    obtain ⟨n, rfl⟩ := Nat.exists_eq_add_of_lt hi
    rw [Nat.add_assoc, scope?_add, Option.bind_eq_some_iff] at h
    obtain ⟨s, hs, hrest⟩ := h
    rw [scope?_succ, Option.bind_eq_some_iff] at hrest
    obtain ⟨parent, hparent, -⟩ := hrest
    exact ⟨s, hs, Table.mem_keys_of_get? hparent⟩
  -- the scopes before the last one are among the keys, of which there are too few
  let keys := (m.parents.entries.map Prod.fst).toFinset.image some
  have hcard : keys.card < (Finset.range k).card := by
    calc keys.card
      _ ≤ (m.parents.entries.map Prod.fst).toFinset.card := Finset.card_image_le
      _ ≤ m.parents.size := by
        have := List.toFinset_card_le (m.parents.entries.map Prod.fst)
        rwa [List.length_map] at this
      _ < (Finset.range k).card := by rwa [Finset.card_range]
  have hmaps : ∀ i ∈ Finset.range k, m.scope? id i ∈ keys := by
    intro i hi
    obtain ⟨s, hs, hmem⟩ := hkey i (Finset.mem_range.1 hi)
    rw [hs]
    exact Finset.mem_image_of_mem some (List.mem_toFinset.2 hmem)
  obtain ⟨i, hi, j, hj, hne, heq⟩ :=
    Finset.exists_ne_map_eq_of_card_lt_of_maps_to hcard hmaps
  rw [Finset.mem_range] at hi hj
  rcases Nat.lt_or_gt_of_ne hne with hij | hij
  · exact ⟨i, j, hij, hj.le, heq⟩
  · exact ⟨j, i, hij, hi.le, heq.symm⟩

/-- **Every scope is reached within the bound.** Of a longer way, the part between two
    visits to one scope may be left out. -/
theorem exists_scope?_le (h : m.scope? id k = some scope) :
    ∃ j ≤ m.parents.size, m.scope? id j = some scope := by
  induction k using Nat.strong_induction_on with
  | _ k ih =>
    by_cases hk : k ≤ m.parents.size
    · exact ⟨k, hk, h⟩
    · obtain ⟨i, j, hij, hjk, heq⟩ := exists_scope?_eq h (Nat.lt_of_not_le hk)
      have hshort : m.scope? id (i + (k - j)) = some scope := by
        rw [scope?_add, heq, ← scope?_add, Nat.add_sub_of_le hjk, h]
      exact ih (i + (k - j)) (by omega) hshort

/-! ## The file on the way -/

theorem fileOf?_eq_none_iff {steps : Nat} :
    m.fileOf? steps id = none ↔
      ∀ k < steps, ∀ s, m.scope? id k = some s → m.files.get? s = none := by
  induction steps generalizing id with
  | zero => simp [fileOf?]
  | succ steps ih =>
    rw [fileOf?]
    cases hfile : m.files.get? id with
    | some file =>
      refine iff_of_false nofun fun h => ?_
      have := h 0 (Nat.succ_pos steps) id rfl
      rw [hfile] at this
      cases this
    | none =>
      dsimp only
      rw [Option.bind_eq_none_iff]
      constructor
      · intro h k hk s hs
        cases k with
        | zero =>
          cases hs
          exact hfile
        | succ k =>
          rw [scope?_succ, Option.bind_eq_some_iff] at hs
          obtain ⟨parent, hparent, hs⟩ := hs
          exact ih.1 (h parent hparent) k (Nat.lt_of_succ_lt_succ hk) s hs
      · intro h parent hparent
        refine ih.2 fun k hk s hs => h (k + 1) (Nat.succ_lt_succ hk) s ?_
        rw [scope?_succ, hparent]
        exact hs

/-- A file that is found is that of the first scope with one. -/
theorem tellsFile_of_fileOf? {steps : Nat} {path : Text} (h : m.fileOf? steps id = some path) :
    m.TellsFile id (some path) := by
  induction steps generalizing id with
  | zero => cases h
  | succ steps ih =>
    rw [fileOf?] at h
    cases hfile : m.files.get? id with
    | some file =>
      rw [hfile] at h
      cases h
      exact .first (k := 0) rfl hfile nofun
    | none =>
      simp only [hfile, Option.bind_eq_some_iff] at h
      obtain ⟨parent, hparent, h⟩ := h
      cases ih h with
      | @first k scope file hscope hfile' hbefore =>
        refine .first (k := k + 1) (by rw [scope?_succ, hparent]; exact hscope) hfile' ?_
        intro j hj s hs
        cases j with
        | zero =>
          cases hs
          exact hfile
        | succ j =>
          rw [scope?_succ, hparent] at hs
          exact hbefore j (Nat.lt_of_succ_lt_succ hj) s hs

/-- The scopes of an id tell one file, or none. -/
theorem TellsFile.unique {file? file?' : Option Text} (h : m.TellsFile id file?)
    (h' : m.TellsFile id file?') : file? = file?' := by
  cases h with
  | @first k scope file hscope hfile hbefore =>
    cases h' with
    | @first k' scope' file' hscope' hfile' hbefore' =>
      obtain hk | rfl | hk := Nat.lt_trichotomy k k'
      · rw [hbefore' k hk scope hscope] at hfile
        cases hfile
      · rw [hscope] at hscope'
        cases hscope'
        rw [hfile] at hfile'
        cases hfile'
        rfl
      · rw [hbefore k' hk scope' hscope'] at hfile'
        cases hfile'
    | nowhere h' =>
      rw [h' k scope hscope] at hfile
      cases hfile
  | nowhere h =>
    cases h' with
    | first hscope' hfile' =>
      rw [h _ _ hscope'] at hfile'
      cases hfile'
    | nowhere => rfl

/-- **The bound loses no file**: as many steps as there are parents, and one more, find
    what the scopes tell. -/
theorem tellsFile_fileOf? (m : Metadata) (id : Text) :
    m.TellsFile id (m.fileOf? (m.parents.size + 1) id) := by
  cases h : m.fileOf? (m.parents.size + 1) id with
  | some path => exact tellsFile_of_fileOf? h
  | none =>
    refine .nowhere fun k s hs => ?_
    obtain ⟨j, hj, hs⟩ := exists_scope?_le hs
    exact fileOf?_eq_none_iff.1 h j (Nat.lt_succ_of_le hj) s hs

/-- **The source location of a line**, for scopes of any shape. There is none exactly if no
    id annotates the line or the id has no source line. Else it has the source line of the
    id, and the file that the scopes of the id tell: that of the first one with a file on
    the whole way outwards, and no file only if there is none on it. -/
theorem location?_along_scopes (m : Metadata) (n : Nat) :
    (m.location? n = none ↔
      ∀ id, m.annotations.get? n = some id → m.sourceLines.get? id = none) ∧
    ∀ location, m.location? n = some location ↔
      ∃ id, m.annotations.get? n = some id ∧ m.sourceLines.get? id = some location.line ∧
        m.TellsFile id location.file := by
  cases hid : m.annotations.get? n with
  | none => simp [location?, hid]
  | some id =>
    cases hline : m.sourceLines.get? id with
    | none => simp [location?, hid, hline]
    | some line =>
      have hlocation : m.location? n = some ⟨m.fileOf? (m.parents.size + 1) id, line⟩ := by
        simp [location?, hid, hline]
      rw [hlocation]
      refine ⟨by simp [hline], fun location => ?_⟩
      constructor
      · rintro ⟨⟩
        exact ⟨id, rfl, hline, m.tellsFile_fileOf? id⟩
      · rintro ⟨id', hid', hline', hfile⟩
        cases hid'
        rw [hline, Option.some.injEq] at hline'
        obtain ⟨file?, line'⟩ := location
        rw [(m.tellsFile_fileOf? id).unique hfile, hline']

/-- The last scope of the longest way that is possible has the file. -/
example :
    let m : Metadata := ⟨⟨[(3, "9")]⟩, ⟨[("9", 12)]⟩, ⟨[("9", "4"), ("4", "2")]⟩,
      ⟨[("2", ⟨"main.c", "/src"⟩)]⟩⟩
    m.location? 3 = some ⟨some "/src/main.c", 12⟩ := by
  decide

end Metadata

end LlvmAsm
