import Relocate.Proofs.Form.Writing
import Relocate.Proofs.Text.Split

/-!
# Dotted names

A dotted name whose segments read as symbols reads as a symbol itself, and so does each part of it
that is cut at a dot. Modules, packages and classes are named this way.
-/
namespace Relocate

/-- Each dot-separated segment of the name reads as a symbol. -/
def isDotted (name : Text) : Bool := (Text.split '.' name).all readsAsSymbol

/-- Two texts make up a run of atom characters if each of them is one. -/
@[simp] theorem isRun_append (first second : Text) :
    isRun (first ++ second) = (isRun first && isRun second) := by
  simp [isRun]

/-- A name behind a dot does not turn a symbol into a literal. The words that are literals have no
dot, and whether it is a number is told by its first two characters. -/
theorem isLiteral_dotted {name : Text} (shape : isAtom name = true)
    (symbol : isLiteral name = false) (more : Text) : isLiteral (name ++ '.' :: more) = false := by
  have notWord (word : String) (clean : '.' ∉ word.toList) : name ++ '.' :: more ≠ word.toList := by
    intro same
    exact clean (same ▸ by simp)
  have notNil := notWord "nil" (by decide)
  have notTrue := notWord "true" (by decide)
  have notFalse := notWord "false" (by decide)
  match name with
  | [] => simp [isAtom] at shape
  | [c] =>
    have digit : Text.isDigit '.' = false := by decide
    simp only [isLiteral, Bool.or_eq_false_iff, decide_eq_false_iff_not] at symbol ⊢
    refine ⟨⟨⟨notNil, notTrue⟩, notFalse⟩, ?_⟩
    simp [digit, symbol.2]
  | c :: d :: name =>
    simp only [isLiteral, Bool.or_eq_false_iff, decide_eq_false_iff_not] at symbol ⊢
    exact ⟨⟨⟨notNil, notTrue⟩, notFalse⟩, symbol.2⟩

/-- The atom of a symbol does not start with a colon and is no literal. -/
theorem ofAtom_eq_symbol_iff {atom : Text} :
    Form.ofAtom atom = .symbol atom ↔ atom.head? ≠ some ':' ∧ isLiteral atom = false := by
  unfold Form.ofAtom
  split
  · simp
  · rename_i other
    have head : atom.head? ≠ some ':' := by
      intro same
      obtain ⟨rest, rfl⟩ := List.head?_eq_some_iff.mp same
      exact other rest rfl
    cases isLiteral atom <;> simp [head]

/-- A symbol with a dot and more characters behind it is a symbol. It is an atom, its first
character is the same, and it is no literal. -/
theorem readsAsSymbol_dotted {name more : Text} (reads : readsAsSymbol name = true)
    (run : isRun more = true) : readsAsSymbol (name ++ '.' :: more) = true := by
  obtain ⟨shape, symbol⟩ := readsAsSymbol_iff.mp reads
  obtain ⟨head, literal⟩ := ofAtom_eq_symbol_iff.mp symbol
  refine readsAsSymbol_iff.mpr ⟨?_, ofAtom_eq_symbol_iff.mpr ⟨?_, ?_⟩⟩
  · cases name with
    | nil => simp [isAtom] at shape
    | cons c name =>
      simp only [isAtom, Bool.and_eq_true] at shape
      have dot : isRun ['.'] = true := by decide
      rw [List.append_cons, List.cons_append, List.cons_append, isAtom, isRun_append, isRun_append,
        shape.1, shape.2, dot, run]
      rfl
  · cases name with
    | nil => simp [isAtom] at shape
    | cons c name => exact head
  · exact isLiteral_dotted shape literal more

/-- A symbol holds no character that ends an atom. -/
theorem isRun_of_readsAsSymbol {name : Text} (reads : readsAsSymbol name = true) :
    isRun name = true :=
  isRun_of_isAtom (readsAsSymbol_iff.mp reads).1

/-- The segments of a name that is cut at a dot. -/
@[simp] theorem isDotted_append (first second : Text) :
    isDotted (first ++ '.' :: second) = (isDotted first && isDotted second) := by
  simp [isDotted]

/-- A name without dots is one segment. -/
theorem isDotted_of_not_mem {name : Text} (absent : '.' ∉ name) :
    isDotted name = readsAsSymbol name := by
  simp [isDotted, absent]

/-- A name is cut at its first dot, or it has none. -/
theorem dotted_cases (name : Text) :
    '.' ∉ name ∨ ∃ first second, name = first ++ '.' :: second ∧ '.' ∉ first := by
  by_cases member : '.' ∈ name
  · obtain ⟨first, second, same, absent⟩ := List.eq_append_cons_of_mem member
    exact .inr ⟨first, second, same, absent⟩
  · exact .inl member

/-- A dotted name holds no character that ends an atom. -/
theorem isRun_of_isDotted {name : Text} (dotted : isDotted name = true) : isRun name = true := by
  obtain absent | ⟨first, second, rfl, absent⟩ := dotted_cases name
  · rw [isDotted_of_not_mem absent] at dotted
    exact isRun_of_readsAsSymbol dotted
  · rw [isDotted_append, isDotted_of_not_mem absent, Bool.and_eq_true] at dotted
    have dot : isRun ['.'] = true := by decide
    rw [List.append_cons, isRun_append, isRun_append, isRun_of_readsAsSymbol dotted.1, dot,
      isRun_of_isDotted dotted.2]
    rfl
termination_by name.length
decreasing_by simp_all; omega

/-- A dotted name reads as a symbol. -/
theorem readsAsSymbol_of_isDotted {name : Text} (dotted : isDotted name = true) :
    readsAsSymbol name = true := by
  obtain absent | ⟨first, second, rfl, absent⟩ := dotted_cases name
  · rwa [isDotted_of_not_mem absent] at dotted
  · rw [isDotted_append, isDotted_of_not_mem absent, Bool.and_eq_true] at dotted
    exact readsAsSymbol_dotted dotted.1 (isRun_of_isDotted dotted.2)

end Relocate
