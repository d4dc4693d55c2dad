import ScriptLint.Diagnostic.Summary
import ScriptLint.Editor.Marker
import ScriptLint.Editor.Panel
import ScriptLint.Linter

/-!
# Sessions

A session holds a text that an editor works on, its line table, and the panel of its diagnostics.  Editing the text
is one change of the document, followed by one change of the diagnostics if they differ from those in the panel.
Every change raises the version by one and is told to every subscriber, in the order of subscription.
-/

namespace ScriptLint

inductive ChangeKind where
  | document | diagnostics
  deriving DecidableEq

/-- One change, told to one subscriber. -/
structure Notification where
  subscriber : Nat
  kind : ChangeKind
  oldVersion : Nat
  newVersion : Nat
  deriving DecidableEq

structure Session where
  linter : Linter
  text : Text
  table : LineTable
  panel : Panel
  /-- How many changes there have been. -/
  version : Nat
  /-- How many subscribers there are; they are numbered in order. -/
  subscribers : Nat

namespace Session

/-- A session that has just opened a text. -/
def ofText (linter : Linter) (text : Text) : Session where
  linter := linter
  text := text
  table := .ofText text
  panel := { diagnostics := linter.lint text }
  version := 0
  subscribers := 0

/-- Raises the version and tells every subscriber. -/
def announce (s : Session) (kind : ChangeKind) : Session × List Notification :=
  ({ s with version := s.version + 1 },
   (List.range s.subscribers).map fun i => ⟨i, kind, s.version, s.version + 1⟩)

/-- Replaces the text and lints it anew. -/
def edit (s : Session) (text : Text) : Session × List Notification :=
  let edited := { s with text := text, table := .ofText text }.announce .document
  let ds := s.linter.lint text
  if ds = s.panel.diagnostics then edited
  else
    let shown := { edited.1 with panel := s.panel.replace ds }.announce .diagnostics
    (shown.1, edited.2 ++ shown.2)

def subscribe (s : Session) : Session := { s with subscribers := s.subscribers + 1 }

def isNewerThan (s : Session) (version : Nat) : Bool := version < s.version

def diagnostics (s : Session) : List Diagnostic := s.panel.diagnostics

def markers (s : Session) : List Marker := Marker.ofDiagnostics s.table s.diagnostics

def summary (s : Session) : Summary := Summary.ofDiagnostics s.diagnostics

/-- The session in one line, for logs. -/
def describe (s : Session) : String :=
  "LintSession \x7b version: " ++ Nat.repr s.version ++ ", chars: " ++ Nat.repr s.table.charCount ++
    ", diagnostics: " ++ Nat.repr s.panel.size ++ ", callbacks: \"" ++ Nat.repr s.subscribers ++
    " callbacks\" \x7d"

/-- What can be done to a session. -/
inductive Action where
  | edit (text : Text)
  | subscribe
  /-- The panel is used directly; this is no change of the session. -/
  | panel (action : Panel.Action)
  deriving DecidableEq

def perform (s : Session) : Action → Session × List Notification
  | .edit t => s.edit t
  | .subscribe => (s.subscribe, [])
  | .panel a => ({ s with panel := s.panel.perform a }, [])

/-- Performs actions in order and collects what subscribers are told. -/
def run (s : Session) : List Action → Session × List Notification
  | [] => (s, [])
  | a :: rest =>
    let r := s.perform a
    let r' := r.1.run rest
    (r'.1, r.2 ++ r'.2)

theorem run_append (s : Session) (xs ys : List Action) :
    s.run (xs ++ ys) = (((s.run xs).1.run ys).1, (s.run xs).2 ++ ((s.run xs).1.run ys).2) := by
  induction xs generalizing s with
  | nil => rfl
  | cons a xs ih => simp [run, ih]

end Session

end ScriptLint
