import ScriptLint.Diagnostic.Basic

/-!
# Panels

A panel lists diagnostics and may have one of them selected.  Navigation goes round the list in both directions.
-/

namespace ScriptLint

structure Panel where
  diagnostics : List Diagnostic := []
  /-- The place of the selected diagnostic. -/
  selected : Option Nat := none
  deriving DecidableEq

namespace Panel

def size (p : Panel) : Nat := p.diagnostics.length

def isEmpty (p : Panel) : Bool := p.diagnostics.isEmpty

def errorCount (p : Panel) : Nat := p.diagnostics.countP fun d => d.severity = .error

def warningCount (p : Panel) : Nat := p.diagnostics.countP fun d => d.severity = .warning

def selectedDiagnostic? (p : Panel) : Option Diagnostic := p.selected.bind fun i => p.diagnostics[i]?

/-- Where a cursor goes to show the selected diagnostic. -/
def cursor? (p : Panel) : Option Position := p.selectedDiagnostic?.map Diagnostic.start

/-- What can be done to a panel. -/
inductive Action where
  /-- Selects the diagnostic at a place, if there is one. -/
  | select (index : Nat)
  | next
  | previous
  | clear
  /-- Lists other diagnostics, and keeps the selected place if the new list has it. -/
  | replace (diagnostics : List Diagnostic)
  deriving DecidableEq

def select (p : Panel) (index : Nat) : Panel :=
  if index < p.size then { p with selected := some index } else p

/-- Selects the next diagnostic: the first one after the last one, or if none is selected. -/
def next (p : Panel) : Panel :=
  if p.isEmpty then p
  else { p with selected := some (p.selected.elim 0 fun i => (i + 1) % p.size) }

/-- Selects the diagnostic before: the last one before the first one, or if none is selected. -/
def previous (p : Panel) : Panel :=
  if p.isEmpty then p
  else
    { p with selected := some (match p.selected with
        | some (i + 1) => i
        | some 0 | none => p.size - 1) }

def clear (p : Panel) : Panel := { p with selected := none }

def replace (p : Panel) (ds : List Diagnostic) : Panel :=
  ⟨ds, p.selected.filter (· < ds.length)⟩

def perform (p : Panel) : Action → Panel
  | .select i => p.select i
  | .next => p.next
  | .previous => p.previous
  | .clear => p.clear
  | .replace ds => p.replace ds

end Panel

end ScriptLint
