/-!
# Positions and spans

A position is a line and a column, both counted from zero.  Positions are ordered by line first.

A character takes one column, so its span ends at the next one (`Position.cell`).  The machine counts columns in
words, and the largest word has no next one; `Position.cell?` says what becomes of the span there.
-/

namespace ScriptLint

structure Position where
  line : Nat
  column : Nat
  deriving DecidableEq

namespace Position

/-- Compares lines, and columns of the same line. -/
protected def compare (p q : Position) : Ordering :=
  (compare p.line q.line).then (compare p.column q.column)

instance : Ord Position := ⟨Position.compare⟩

instance : LT Position := ⟨fun p q => p.line < q.line ∨ p.line = q.line ∧ p.column < q.column⟩

instance : LE Position := ⟨fun p q => p.line < q.line ∨ p.line = q.line ∧ p.column ≤ q.column⟩

instance (p q : Position) : Decidable (p < q) :=
  inferInstanceAs (Decidable (p.line < q.line ∨ p.line = q.line ∧ p.column < q.column))

instance (p q : Position) : Decidable (p ≤ q) :=
  inferInstanceAs (Decidable (p.line < q.line ∨ p.line = q.line ∧ p.column ≤ q.column))

instance : Max Position := maxOfLe

protected theorem le_refl (p : Position) : p ≤ p := Or.inr ⟨rfl, Nat.le_refl _⟩

protected theorem le_total (p q : Position) : p ≤ q ∨ q ≤ p := by
  show (_ ∨ _) ∨ (_ ∨ _)
  omega

theorem compare_eq_lt {p q : Position} : p.compare q = .lt ↔ p < q := by
  simp only [Position.compare, Ordering.then_eq_lt, Nat.compare_eq_lt, Nat.compare_eq_eq]
  exact Iff.rfl

theorem compare_ne_gt {p q : Position} : p.compare q ≠ .gt ↔ p ≤ q := by
  simp only [Position.compare, ne_eq, Ordering.then_eq_gt, Nat.compare_eq_gt, Nat.compare_eq_eq]
  show _ ↔ p.line < q.line ∨ p.line = q.line ∧ p.column ≤ q.column
  omega

end Position

/-- The part of a text from `start` up to, and without, `stop`. -/
structure Span where
  start : Position
  stop : Position
  deriving DecidableEq

/-- The columns `a` up to `b` of one line. -/
def Span.inLine (line a b : Nat) : Span := ⟨⟨line, a⟩, ⟨line, b⟩⟩

/-- The one column of a character. -/
def Position.cell (p : Position) : Span := Span.inLine p.line p.column (p.column + 1)

/-! ### Machine words -/

/-- What a build of the program makes of a sum that does not fit into a word. -/
inductive Overflow where
  /-- The program stops. -/
  | stops
  /-- The carry is dropped. -/
  | wraps
  deriving DecidableEq

/-- The word behind the word `n`. -/
def Overflow.next? (o : Overflow) (n : Nat) : Option Nat :=
  if n + 1 < UInt64.size then some (n + 1)
  else
    match o with
    | stops => none
    | wraps => some ((n + 1) % UInt64.size)

/-- The one column of a character, in words. -/
def Position.cell? (o : Overflow) (p : Position) : Option Span :=
  (o.next? p.column).map fun next => Span.inLine p.line p.column next

theorem Position.cell?_of_lt (o : Overflow) {p : Position} (h : p.column + 1 < UInt64.size) :
    p.cell? o = some p.cell := by
  have hnext : o.next? p.column = some (p.column + 1) := by
    unfold Overflow.next?
    exact if_pos h
  rw [cell?, hnext]
  rfl

end ScriptLint
