/-!
# Nested words

A word is nested when it is derivable in the grammar `D ::= ε | o D c D`, where `o` and `c` range over the symbols
that a relation pairs.  A stack of the symbols that are open recognises exactly the nested words
(`run_eq_nil_iff`), as soon as every paired opener is known to open and every paired closer is not.

The argument goes through words that close what is open: `Finishes P stack w` says that `w` is a nested word, the
closer of the innermost open symbol, a nested word, and so on to the end of the stack, and then a nested word.
-/

namespace ScriptLint

variable {α : Type}

/-- The words derivable in `D ::= ε | o D c D`, for the pairs `o`, `c` of a relation. -/
inductive Nested (Pairs : α → α → Prop) : List α → Prop
  | empty : Nested Pairs []
  | wrap {o c : α} {u v : List α} :
      Pairs o c → Nested Pairs u → Nested Pairs v → Nested Pairs (o :: (u ++ c :: v))

/-- Symbols that open and symbols that close, and which of them fit together. -/
structure Pairing (α : Type) where
  opens : α → Bool
  Pairs : α → α → Prop
  decPairs : DecidableRel Pairs
  opens_left {o c : α} : Pairs o c → opens o = true
  opens_right {o c : α} : Pairs o c → opens c = false

namespace Pairing

variable (P : Pairing α)

instance : DecidableRel P.Pairs := P.decPairs

/-! ### The recogniser -/

/-- Reads a symbol with the given symbols open, innermost first: an opener is put on the stack, any other symbol
has to fit the innermost open one. -/
def step (stack : List α) (a : α) : Option (List α) :=
  if P.opens a then some (a :: stack)
  else match stack with
    | [] => none
    | o :: rest => if P.Pairs o a then some rest else none

def run (stack w : List α) : Option (List α) := w.foldlM P.step stack

@[simp] theorem run_nil (stack : List α) : P.run stack [] = some stack := rfl

theorem run_cons (stack : List α) (a : α) (w : List α) :
    P.run stack (a :: w) = (P.step stack a).bind fun s => P.run s w := by
  simp [run]

theorem run_append (stack u w : List α) :
    P.run stack (u ++ w) = (P.run stack u).bind fun s => P.run s w := by
  simp [run]

variable {P}

theorem step_opener {a : α} (h : P.opens a = true) (stack : List α) : P.step stack a = some (a :: stack) := by
  simp [step, h]

theorem step_closer_nil {a : α} (h : P.opens a = false) : P.step [] a = none := by
  simp [step, h]

theorem step_closer_cons {a : α} (h : P.opens a = false) (o : α) (rest : List α) :
    P.step (o :: rest) a = if P.Pairs o a then some rest else none := by
  simp [step, h]

/-! ### Nested words are recognised -/

/-- A nested word leaves the stack as it was. -/
theorem run_append_of_nested {u : List α} (h : Nested P.Pairs u) (stack w : List α) :
    P.run stack (u ++ w) = P.run stack w := by
  induction h generalizing stack w with
  | empty => rfl
  | @wrap o c u v hp _ _ ihu ihv =>
    rw [List.cons_append, List.append_assoc, run_cons, step_opener (P.opens_left hp), Option.bind_some, ihu,
      List.cons_append, run_cons, step_closer_cons (P.opens_right hp), if_pos hp, Option.bind_some, ihv]

/-! ### Recognised words are nested -/

/-- The words that close the open symbols `stack`, innermost first, with nested words in between. -/
inductive Finishes (P : Pairing α) : List α → List α → Prop
  | done {w : List α} : Nested P.Pairs w → Finishes P [] w
  | close {o c : α} {stack u v : List α} :
      Nested P.Pairs u → P.Pairs o c → Finishes P stack v → Finishes P (o :: stack) (u ++ c :: v)

/-- A bracketed nested word may be put in front of a word that finishes the stack. -/
private theorem Finishes.wrap {o c : α} {stack u v : List α} (hp : P.Pairs o c) (hu : Nested P.Pairs u)
    (hv : Finishes P stack v) : Finishes P stack (o :: (u ++ c :: v)) := by
  cases hv with
  | done hv => exact .done (.wrap hp hu hv)
  | @close o' c' stack u' v' hu' hp' hv' =>
    have h := Finishes.close (Nested.wrap hp hu hu') hp' hv'
    simpa using h

private theorem finishes_of_run {stack w : List α} (h : P.run stack w = some []) : Finishes P stack w := by
  induction w generalizing stack with
  | nil =>
    rw [run_nil, Option.some.injEq] at h
    subst h
    exact .done .empty
  | cons a w ih =>
    rw [run_cons] at h
    cases ha : P.opens a with
    | true =>
      -- `a` is closed somewhere in `w`, and what follows finishes the stack below it
      rw [step_opener ha, Option.bind_some] at h
      cases ih h with
      | close hu hp hv => exact Finishes.wrap hp hu hv
    | false =>
      cases stack with
      | nil => rw [step_closer_nil ha] at h; cases h
      | cons o rest =>
        rw [step_closer_cons ha] at h
        split at h
        · rename_i hp
          exact Finishes.close .empty hp (ih h)
        · cases h

/-- The stack recognises exactly the nested words. -/
theorem run_eq_nil_iff (w : List α) : P.run [] w = some [] ↔ Nested P.Pairs w := by
  constructor
  · intro h
    cases finishes_of_run h with
    | done hw => exact hw
  · intro h
    rw [← List.append_nil w, run_append_of_nested h, run_nil]

end Pairing

end ScriptLint
