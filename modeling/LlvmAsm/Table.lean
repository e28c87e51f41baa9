/-
  Tables: finite maps that keep the order in which their keys were added.

  `Table.put` sets the value of a key; a key that is there already keeps its
  place. `get?_put` says what a table holds after that.
-/

namespace LlvmAsm

/-- A finite map as the list of its entries, in the order in which their keys
    were added. -/
structure Table (κ α : Type) where
  entries : List (κ × α)
deriving DecidableEq, Repr

namespace Table

variable {κ α : Type} [DecidableEq κ]

/-- The table without entries. -/
def empty : Table κ α := ⟨[]⟩

/-- The table has no entries. -/
def isEmpty (t : Table κ α) : Bool := t.entries.isEmpty

/-- The number of entries. -/
def size (t : Table κ α) : Nat := t.entries.length

/-- The value of a key. -/
def get? (t : Table κ α) (k : κ) : Option α := t.entries.lookup k

/-- The entries with the value of `k` set to `a`. -/
def putEntry (k : κ) (a : α) : List (κ × α) → List (κ × α)
  | [] => [(k, a)]
  | e :: es => if e.1 = k then (k, a) :: es else e :: putEntry k a es

/-- The table with the value of `k` set to `a`. -/
def put (t : Table κ α) (k : κ) (a : α) : Table κ α := ⟨putEntry k a t.entries⟩

theorem get?_put (t : Table κ α) (k k' : κ) (a : α) :
    (t.put k a).get? k' = if k' = k then some a else t.get? k' := by
  obtain ⟨es⟩ := t
  simp only [put, get?]
  induction es with
  | nil =>
    simp only [putEntry, List.lookup_cons, List.lookup_nil]
    split <;> simp_all
  | cons e es ih =>
    obtain ⟨key, b⟩ := e
    simp only [putEntry]
    split
    · rename_i h
      simp only [List.lookup_cons]
      by_cases hk : k' = k
      · simp [hk]
      · have : (k' == k) = false := by simpa using hk
        simp [hk, h, this]
    · rename_i h
      simp only [List.lookup_cons, ih]
      by_cases hk : k' = k
      · subst hk
        have : (k' == key) = false := by simpa using fun h' => h h'.symm
        simp [this]
      · simp [hk]

end Table

end LlvmAsm
