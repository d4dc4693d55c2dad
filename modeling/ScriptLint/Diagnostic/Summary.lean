import ScriptLint.Diagnostic.Basic

/-!
# Summaries

How many errors and warnings there are, and how that is said.
-/

namespace ScriptLint

structure Summary where
  errors : Nat := 0
  warnings : Nat := 0
  deriving DecidableEq

/-- The ending of a noun that is counted `n` times. -/
def pluralEnding (n : Nat) : String := if n = 1 then "" else "s"

namespace Summary

/-- The summary after one more diagnostic. -/
def add (s : Summary) (d : Diagnostic) : Summary :=
  match d.severity with
  | .error => { s with errors := s.errors + 1 }
  | .warning => { s with warnings := s.warnings + 1 }

def ofDiagnostics (ds : List Diagnostic) : Summary := ds.foldl add {}

def total (s : Summary) : Nat := s.errors + s.warnings

def isClean (s : Summary) : Bool := s.total == 0

def describe (s : Summary) : String :=
  if s.isClean then "no issues"
  else
    Nat.repr s.errors ++ " error" ++ pluralEnding s.errors ++ ", " ++
      Nat.repr s.warnings ++ " warning" ++ pluralEnding s.warnings

private theorem foldl_add (s : Summary) (ds : List Diagnostic) :
    (ds.foldl add s).errors = s.errors + ds.countP (fun d => d.severity = .error) ∧
      (ds.foldl add s).warnings = s.warnings + ds.countP (fun d => d.severity = .warning) := by
  induction ds generalizing s with
  | nil => exact ⟨rfl, rfl⟩
  | cons d ds ih =>
    obtain ⟨herrors, hwarnings⟩ := ih (s.add d)
    rw [List.foldl_cons, herrors, hwarnings, List.countP_cons, List.countP_cons]
    cases hd : d.severity <;> simp [add, hd] <;> omega

theorem errors_ofDiagnostics (ds : List Diagnostic) :
    (ofDiagnostics ds).errors = ds.countP fun d => d.severity = .error := by
  have herrors := (foldl_add {} ds).1
  rwa [Nat.zero_add] at herrors

theorem warnings_ofDiagnostics (ds : List Diagnostic) :
    (ofDiagnostics ds).warnings = ds.countP fun d => d.severity = .warning := by
  have hwarnings := (foldl_add {} ds).2
  rwa [Nat.zero_add] at hwarnings

theorem total_ofDiagnostics (ds : List Diagnostic) : (ofDiagnostics ds).total = ds.length := by
  rw [total, errors_ofDiagnostics, warnings_ofDiagnostics]
  induction ds with
  | nil => rfl
  | cons d ds ih =>
    rw [List.countP_cons, List.countP_cons, List.length_cons, ← ih]
    cases hd : d.severity <;> simp <;> omega

end Summary

end ScriptLint
