import ScriptLint.Proofs.NestedWords
import ScriptLint.Proofs.Strands

/-!
# The bracket grammar

A text has no diagnostics about brackets exactly when its code brackets, read over all lines, form a nested word of
the pairs of the language (`bracketFree_iff_nested`).

A bracket stack that emits nothing is a run of the recogniser of nested words on the openers of the stack, and one
that emits something is a failing run (`run_openers_iff`): the recogniser stops where the stack pops a bracket that
does not fit and goes on.
-/

namespace ScriptLint

namespace Language

/-- The characters `o` and `c` form a pair of the language. -/
def Pairs (l : Language) (o c : Char) : Prop := ⟨o, c⟩ ∈ l.pairs

instance (l : Language) : DecidableRel l.Pairs := fun o c => inferInstanceAs (Decidable (⟨o, c⟩ ∈ l.pairs))

variable {l : Language}

def pairing (l : Language) (h : l.fault? = none) : Pairing Char where
  opens := l.opens
  Pairs := l.Pairs
  decPairs := inferInstance
  opens_left hp := opens_iff.2 ⟨_, hp, rfl⟩
  opens_right hp := opens_of_closes h (closes_iff.2 ⟨_, hp, rfl⟩)

/-- The code brackets of a text, line after line. -/
def bracketWord (l : Language) (text : Text) : List Char :=
  text.lines.flatMap fun line => ((Scan.ofLine l line).code.map Prod.snd).filter l.isBracket

end Language

namespace BracketStack

variable {l : Language}

def openers (s : BracketStack) : List Char := s.items.map OpenBracket.opener

/-- Every open bracket asks for the closer of its pair. -/
def Sound (l : Language) (s : BracketStack) : Prop := ∀ b ∈ s.items, l.Pairs b.opener b.closer

private theorem sound_empty (l : Language) : Sound l .empty := by
  intro b hb
  cases hb

theorem Sound.read (h : l.fault? = none) {s : BracketStack} (hs : s.Sound l) (c : Char) (p : Position) :
    (s.read l c p).1.Sound l := by
  intro b hb
  rcases mem_items_read hb with hb | ⟨e, he, rfl⟩
  · exact hs b hb
  · exact (Language.closing?_eq_some_iff h).1 he

/-- A bracket fits the innermost open one exactly when it is the closer that this one asks for. -/
private theorem pairs_iff_closer (h : l.fault? = none) {b : OpenBracket} (hb : l.Pairs b.opener b.closer)
    (c : Char) : l.Pairs b.opener c ↔ b.closer = c := by
  have hb' := (Language.closing?_eq_some_iff h).2 hb
  unfold Language.Pairs
  rw [← Language.closing?_eq_some_iff h, hb', Option.some.injEq]

/-- One bracket: the recogniser goes on as the stack does, and stops where the stack emits a diagnostic. -/
private theorem step_openers_iff (h : l.fault? = none) {s : BracketStack} (hs : s.Sound l) {c : Char}
    (hc : l.isBracket c = true) (p : Position) (t : List Char) :
    (l.pairing h).step s.openers c = some t ↔ (s.read l c p).2 = none ∧ (s.read l c p).1.openers = t := by
  cases ho : l.opens c with
  | true =>
    obtain ⟨e, he⟩ := Language.opens_iff_closing?.1 ho
    rw [Pairing.step_opener ho, read_opener he]
    simp [openers]
  | false =>
    have hcl : l.closes c = true := by simpa [Language.isBracket, ho] using hc
    rw [read_closer ho hcl]
    cases hi : s.items with
    | nil =>
      rw [openers, hi, List.map_nil, Pairing.step_closer_nil ho, close_nil hi]
      simp
    | cons b rest =>
      have hb : (l.pairing h).Pairs b.opener c ↔ b.closer = c := pairs_iff_closer h (hs b (by simp [hi])) c
      rw [openers, hi, List.map_cons, Pairing.step_closer_cons ho, close_cons hi]
      by_cases hbc : b.closer = c
      · rw [if_pos (hb.2 hbc), if_pos hbc]
        simp [openers]
      · rw [if_neg (fun hp => hbc (hb.1 hp)), if_neg hbc]
        simp

/-- Many code characters: the runs of the stack without diagnostics are the runs of the recogniser. -/
theorem run_openers_iff (h : l.fault? = none) {s : BracketStack} (hs : s.Sound l) (xs : List (Char × Position))
    (t : List Char) :
    (l.pairing h).run s.openers ((xs.map Prod.fst).filter l.isBracket) = some t ↔
      (s.readAll l xs).2 = [] ∧ (s.readAll l xs).1.openers = t := by
  induction xs generalizing s with
  | nil => simp [readAll]
  | cons x xs ih =>
    obtain ⟨c, p⟩ := x
    simp only [List.map_cons, readAll, List.append_eq_nil_iff, Option.toList_eq_nil_iff]
    by_cases hc : l.isBracket c = true
    · rw [List.filter_cons_of_pos hc, Pairing.run_cons, Option.bind_eq_some_iff]
      simp only [step_openers_iff h hs hc p]
      constructor
      · rintro ⟨_, ⟨hnone, rfl⟩, hrun⟩
        obtain ⟨hnil, hopen⟩ := (ih (hs.read h c p)).1 hrun
        exact ⟨⟨hnone, hnil⟩, hopen⟩
      · rintro ⟨⟨hnone, hnil⟩, hopen⟩
        exact ⟨_, ⟨hnone, rfl⟩, (ih (hs.read h c p)).2 ⟨hnil, hopen⟩⟩
    · rw [List.filter_cons_of_neg hc, ih hs, read_other (Bool.eq_false_iff.2 hc)]
      simp

/-- A stack has nothing to report exactly when the brackets that it has read form a nested word. -/
theorem report_eq_nil_iff (h : l.fault? = none) (xs : List (Char × Position)) :
    report l xs = [] ↔ Nested l.Pairs ((xs.map Prod.fst).filter l.isBracket) := by
  have hrun := run_openers_iff h (sound_empty l) xs []
  have hnested : (l.pairing h).run (openers .empty) ((xs.map Prod.fst).filter l.isBracket) = some [] ↔
      Nested l.Pairs ((xs.map Prod.fst).filter l.isBracket) := Pairing.run_eq_nil_iff _
  rw [← hnested, hrun]
  simp [report, OpenStack.unclosed, openers]

end BracketStack

namespace Linter

private theorem bracketWord_from (l : Language) (number : Nat) (lines : List Text) :
    ((codeFrom l number lines).map Prod.fst).filter l.isBracket =
      lines.flatMap fun line => ((Scan.ofLine l line).code.map Prod.snd).filter l.isBracket := by
  induction lines generalizing number with
  | nil => rfl
  | cons line rest ih =>
    have hline : (codeOf l number line).map Prod.fst = (Scan.ofLine l line).code.map Prod.snd := by
      simp [codeOf]
    rw [codeFrom_cons, List.map_append, List.filter_append, ih, hline, List.flatMap_cons]

/-- A text is free of bracket diagnostics exactly when its code brackets are derivable in `D ::= ε | o D c D`,
where `o` and `c` range over the pairs of the language. -/
theorem bracketFree_iff_nested (lt : Linter) (text : Text) :
    (∀ d ∈ lt.lint text, d.code ≠ .unexpectedClosingBracket ∧ d.code ≠ .mismatchedBrackets ∧
        d.code ≠ .unclosedBracket) ↔
      Nested lt.language.Pairs (lt.language.bracketWord text) := by
  have hfree : Strand.bracket.pick (lt.lint text) = [] ↔
      ∀ d ∈ lt.lint text, d.code ≠ .unexpectedClosingBracket ∧ d.code ≠ .mismatchedBrackets ∧
        d.code ≠ .unclosedBracket := by
    simp only [Strand.pick_eq_nil_iff, ne_eq, Code.strand_eq_bracket_iff, not_or]
  rw [← hfree, pick_bracket_lint, BracketStack.report_eq_nil_iff lt.faultless, bracketWord_from]
  rfl

end Linter

end ScriptLint
