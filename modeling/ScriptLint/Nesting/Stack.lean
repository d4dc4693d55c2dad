import ScriptLint.Diagnostic.Basic

/-!
# Stacks of open things

Things that have been opened and not yet closed, listed from the innermost to the outermost.  What is left open at
the end is reported the other way round, in the order of opening.
-/

namespace ScriptLint

/-- Things that can be left open. -/
class Opened (α : Type) where
  /-- The diagnostic of a thing that is never closed.  What stands for a whole line marks it up to `width`. -/
  unclosed : α → (width : Nat) → Diagnostic

/-- The open things, innermost first. -/
structure OpenStack (α : Type) where
  items : List α
  deriving DecidableEq

namespace OpenStack

variable {α : Type}

def empty : OpenStack α := ⟨[]⟩

def push (s : OpenStack α) (a : α) : OpenStack α := ⟨a :: s.items⟩

/-- The innermost open thing. -/
def top? (s : OpenStack α) : Option α := s.items.head?

/-- The stack without its innermost thing. -/
def pop (s : OpenStack α) : OpenStack α := ⟨s.items.tail⟩

def size (s : OpenStack α) : Nat := s.items.length

def isEmpty (s : OpenStack α) : Bool := s.items.isEmpty

/-- Reports everything that is open, outermost first. -/
def unclosed [Opened α] (s : OpenStack α) (width : Nat) : List Diagnostic :=
  s.items.reverse.map fun a => Opened.unclosed a width

@[simp] theorem items_empty : (empty : OpenStack α).items = [] := rfl

@[simp] theorem items_push (s : OpenStack α) (a : α) : (s.push a).items = a :: s.items := rfl

@[simp] theorem items_pop (s : OpenStack α) : s.pop.items = s.items.tail := rfl

@[simp] theorem pop_push (s : OpenStack α) (a : α) : (s.push a).pop = s := rfl

@[simp] theorem top?_push (s : OpenStack α) (a : α) : (s.push a).top? = some a := rfl

@[simp] theorem unclosed_empty [Opened α] (width : Nat) : (empty : OpenStack α).unclosed width = [] := rfl

theorem unclosed_push [Opened α] (s : OpenStack α) (a : α) (width : Nat) :
    (s.push a).unclosed width = s.unclosed width ++ [Opened.unclosed a width] := by
  simp [unclosed]

end OpenStack

end ScriptLint
