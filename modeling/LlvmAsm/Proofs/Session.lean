/-
  Sessions: requests that are made one after the other with one registry.

  A request is for the nodes of a function that was set aside, for the listing
  of some lines, or for the node of a line of a given category. Its reading has
  the registry at hand from the first token to the last, and may look at it.
  `Request.reading_eq`: it comes to a reading that cannot, or breaks off before
  it enters anything.

  `session` makes several requests, those that fail included, each with the
  registry that the one before it left. `session_order_irrelevant`: neither the
  registry at hand nor the order of the requests has a bearing on the answers,
  and the same types are known in the end.
-/
import LlvmAsm.Proofs.Positional.Listing
import LlvmAsm.Proofs.Registry

namespace LlvmAsm

open Positional

/-- What may be asked for with a registry at hand. -/
inductive Request where
  /-- the nodes of a function that was set aside -/
  | function (stub : Stub)
  /-- the listing of the lines that follow line `base` -/
  | listing (deferred : Bool) (base : Nat) (lines : List Text)
  /-- the node of a line that belongs to a category -/
  | statement (c : Category) (line : Line)
deriving DecidableEq, Repr

/-- What a request is answered with, unless it fails. -/
inductive Answer where
  | nodes (nodes : List Node)
  | listing (listing : Listing)
  | node (node : Option Node)
deriving DecidableEq, Repr

namespace Request

/-- The reading that answers a request, with the registry at hand. -/
def reading : Request → PositionalReading Answer
  | function stub => .nodes <$> functionNodes stub
  | listing deferred base lines => .listing <$> Positional.listing deferred base lines
  | statement c line => .node <$> ofCategory c line

/-- The answer to a request, none if its reading breaks off, and the registry
    after it. -/
def run (q : Request) (known : Registry) : Except Failure (Option Answer) × Registry :=
  outcome q.reading known

/-- The answer to a request by readings that collect types and have no registry
    at hand. -/
def collected : Request → Reading Answer
  | function stub => .nodes <$> stub.nodes
  | listing deferred base lines => .listing <$> Listing.ofLines deferred base lines
  | statement c line => .node <$> Statement.ofCategory c line

/-- The request is to read a line as a branch whose condition would end before
    it begins. -/
def breaksOff : Request → Bool
  | statement c line => c = .branch && isReversed line
  | function _ | listing .. => false

/-- The types that are met while a request is answered, in order. -/
def noted (q : Request) : List Text := if q.breaksOff then [] else q.collected.noted

/-- **No reading looks at the registry at hand.** -/
theorem reading_eq (q : Request) :
    q.reading = if q.breaksOff then failure else liftM q.collected := by
  cases q with
  | function stub => exact map_eq_liftM (functionNodes_eq stub) _
  | listing deferred base lines => exact map_eq_liftM (listing_eq deferred base lines) _
  | statement c line =>
    by_cases h : c = .branch ∧ isReversed line = true
    · obtain ⟨rfl, hreversed⟩ := h
      rw [reading, ofCategory_eq_failure hreversed, breaksOff, hreversed]
      rfl
    · rw [breaksOff, if_neg (by simpa using h)]
      exact map_eq_liftM (ofCategory_eq h) _

/-- A request comes to the same with every registry, or breaks off. -/
theorem run_eq (q : Request) (known : Registry) :
    q.run known =
      if q.breaksOff then (.ok none, known) else (some <$> q.collected).run known := by
  rw [run, reading_eq]
  split
  · exact outcome_failure known
  · exact outcome_liftM q.collected known

/-- The answer is the one with no type known, and the registry is the one at
    hand with the types that are met. -/
theorem run_eq_learn (q : Request) (known : Registry) :
    q.run known = ((q.run .empty).1, known.learn q.noted) := by
  rw [run_eq, run_eq, noted]
  split
  · rfl
  · simp only [Reading.run, Reading.noted_map]

end Request

/-- The answers to several requests, and the registry after the last one. -/
def session : List Request → Registry → List (Except Failure (Option Answer)) × Registry
  | [], known => ([], known)
  | q :: qs, known =>
    let (answer, known) := q.run known
    let (answers, known) := session qs known
    (answer :: answers, known)

/-- A session answers every request as if it were the only one, and enters the
    types that are met on the way. -/
theorem session_eq (qs : List Request) (known : Registry) :
    session qs known =
      (qs.map fun q => (q.run .empty).1, known.learn (qs.flatMap Request.noted)) := by
  induction qs generalizing known with
  | nil => rfl
  | cons q qs ih =>
    rw [session, Request.run_eq_learn q known]
    dsimp only
    rw [ih, List.map_cons, List.flatMap_cons, Registry.learn_append]

/-- What a session leaves is valid if no type was known before. -/
theorem session_valid (qs : List Request) : (session qs .empty).2.Valid := by
  rw [session_eq]
  exact Registry.valid_empty.learn _

/-- A request that was made before adds nothing when it is made again. -/
theorem session_repeat {qs : List Request} {q : Request} (h : q ∈ qs) (known : Registry) :
    (session (qs ++ [q]) known).2 = (session qs known).2 := by
  simp only [session_eq, List.flatMap_append, Registry.learn_append]
  refine Registry.learn_eq_self fun ty hty he => Registry.mem_names_learn.2 (Or.inr ⟨?_, he⟩)
  rw [List.flatMap_singleton] at hty
  exact List.mem_flatMap.2 ⟨q, h, hty⟩

/-- **The order of requests does not matter.** A request, with any registry at
    hand, comes to what it comes to without one, or breaks off; so its answer is
    the same with every registry. A request, whether it fails or not, only
    appends to the registry, and keeps it valid. Requests made in another order
    get the same answers, and the same types are known in the end; to repeat a
    request adds no type. -/
theorem session_order_irrelevant :
    (∀ (q : Request) (known : Registry), q.run known =
      if q.breaksOff then (.ok none, known) else (some <$> q.collected).run known) ∧
    (∀ (q : Request) (known known' : Registry), (q.run known).1 = (q.run known').1) ∧
    (∀ (q : Request) (known : Registry),
      known.names <+: (q.run known).2.names ∧ (known.Valid → (q.run known).2.Valid)) ∧
    (∀ (qs qs' : List Request) (known : Registry), qs.Perm qs' →
      (session qs known).1 = qs.map (fun q => (q.run known).1) ∧
      (session qs' known).1 = qs'.map (fun q => (q.run known).1) ∧
      (∀ ty, ty ∈ (session qs known).2.names ↔ ty ∈ (session qs' known).2.names) ∧
      known.names <+: (session qs known).2.names ∧
      (known.Valid → (session qs known).2.Valid)) ∧
    (∀ (qs : List Request) (q : Request) (known : Registry), q ∈ qs →
      (session (qs ++ [q]) known).2 = (session qs known).2) := by
  have hanswer (q : Request) (known : Registry) : (q.run known).1 = (q.run .empty).1 := by
    rw [Request.run_eq_learn q known]
  refine ⟨Request.run_eq, fun q known known' => (hanswer q known).trans (hanswer q known').symm,
    fun q known => ?_, fun qs qs' known h => ?_, fun qs q known h => session_repeat h known⟩
  · rw [Request.run_eq_learn q known]
    exact ⟨Registry.names_prefix_learn _ _, fun hknown => hknown.learn _⟩
  · have hnoted (ty : Text) : ty ∈ qs.flatMap Request.noted ↔ ty ∈ qs'.flatMap Request.noted :=
      (h.flatMap_right _).mem_iff
    simp only [session_eq, hanswer]
    exact ⟨trivial, trivial, Registry.mem_names_learn_congr hnoted,
      Registry.names_prefix_learn _ _, fun hknown => hknown.learn _⟩

/-- An `alloca` and an assignment that was not split, in both orders: the second
    one fails, and `i8` is known in the end. -/
theorem session_order_irrelevant_of_alloca :
    let line : Line := ⟨"alloca i8", 3, .continuation, [.word "alloca", .word "i8"]⟩
    let qs : List Request := [.statement .alloca line, .statement .assign line]
    let qs' : List Request := [.statement .assign line, .statement .alloca line]
    let known : Registry := ⟨["i32"]⟩
    known.Valid ∧ qs.Perm qs' ∧
      (session qs known).1 = qs.map (fun q => (q.run known).1) ∧
      (session qs' known).1 = qs'.map (fun q => (q.run known).1) ∧
      (session qs known).2.names = ["i32".toList, "i8".toList] ∧
      (session qs' known).2.names = ["i32".toList, "i8".toList] ∧
      (session qs known).2.Valid ∧
      (session (qs ++ qs.take 1) known).2 = (session qs known).2 := by
  intro line qs qs' known
  have hknown : known.Valid := ⟨by decide, by simp [known, Registry.Enters, TypeText.unknown]⟩
  have hperm : qs.Perm qs' := List.Perm.swap ..
  obtain ⟨-, -, -, horder, hrepeat⟩ := session_order_irrelevant
  obtain ⟨hanswers, hanswers', -, -, hvalid⟩ := horder qs qs' known hperm
  exact ⟨hknown, hperm, hanswers, hanswers', rfl, rfl, hvalid hknown,
    hrepeat qs _ known List.mem_cons_self⟩

end LlvmAsm
