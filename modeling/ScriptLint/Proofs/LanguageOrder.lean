import ScriptLint.Linter
import ScriptLint.Proofs.BracketRoles

/-!
# The order of a description

The bracket pairs of a language, and its quotes, are written down in some order.  For a description without faults
the order says nothing (`lint_rearranged`): a rearranged description has no faults either, and every text has the
same diagnostics under both.

The linter asks a language five questions, and languages that answer them alike give the same diagnostics
(`Agrees.lint_eq`).  Only one of the answers is a matter of order, the closer that an opener asks for, since it is
that of the first pair with this opener.  Without faults there is no second one (`Rearranges.agrees`).
-/

namespace ScriptLint

namespace Language

/-- The two descriptions differ in the order of their pairs, and in the order and the repetitions of their quotes.
-/
structure Rearranges (l l' : Language) : Prop where
  token : l.commentToken = l'.commentToken
  escape : l.escape = l'.escape
  pairs : l.pairs.Perm l'.pairs
  quotes : ∀ c, c ∈ l.quotes ↔ c ∈ l'.quotes

/-- The two descriptions give the same answers to all that is asked about a character or a text. -/
structure Agrees (l l' : Language) : Prop where
  token : l.commentToken = l'.commentToken
  escape : l.escape = l'.escape
  quote : ∀ c, l.isQuote c = l'.isQuote c
  closing : ∀ c, l.closing? c = l'.closing? c
  closes : ∀ c, l.closes c = l'.closes c

namespace Rearranges

variable {l l' : Language}

theorem symm (h : l.Rearranges l') : l'.Rearranges l :=
  ⟨h.token.symm, h.escape.symm, h.pairs.symm, fun c => (h.quotes c).symm⟩

private theorem perm_bracketChars (h : l.Rearranges l') : l.bracketChars.Perm l'.bracketChars :=
  h.pairs.flatMap_right _

theorem faultless (h : l.Rearranges l') (hl : l.fault? = none) : l'.fault? = none := by
  obtain ⟨htoken, hnodup, hquotes⟩ := (fault?_eq_none_iff l).1 hl
  refine (fault?_eq_none_iff l').2 ⟨h.token ▸ htoken, h.perm_bracketChars.nodup_iff.1 hnodup, ?_⟩
  intro q hq hbracket
  exact hquotes q ((h.quotes q).2 hq) (h.perm_bracketChars.mem_iff.2 hbracket)

/-- Without faults an opener asks for the closer of its only pair, wherever that pair stands. -/
theorem closing?_eq (h : l.Rearranges l') (hl : l.fault? = none) (c : Char) : l.closing? c = l'.closing? c := by
  apply Option.ext
  intro d
  rw [closing?_eq_some_iff hl, closing?_eq_some_iff (h.faultless hl), h.pairs.mem_iff]

theorem agrees (h : l.Rearranges l') (hl : l.fault? = none) : l.Agrees l' where
  token := h.token
  escape := h.escape
  quote c := by
    rw [Bool.eq_iff_iff]
    simp only [isQuote, List.contains_iff_mem, h.quotes c]
  closing := h.closing?_eq hl
  closes c := by
    rw [Bool.eq_iff_iff, closes_iff, closes_iff]
    simp only [h.pairs.mem_iff]

end Rearranges

/-! ### Two runs under languages that agree -/

namespace Agrees

variable {l l' : Language} (h : l.Agrees l')
include h

private theorem startsComment_eq (t : Text) : l.startsComment t = l'.startsComment t := by
  simp only [startsComment, h.token]

private theorem endsString_eq (q : Char) (before : Option Char) (c : Char) :
    Mode.endsString l q before c = Mode.endsString l' q before c := by
  have hescape : l.isEscapeChar = l'.isEscapeChar := by
    funext c
    simp only [isEscapeChar, h.escape]
  simp only [Mode.endsString, hescape]

private theorem readPlain_eq (m : Mode) (before : Option Char) (c : Char) :
    m.readPlain l before c = m.readPlain l' before c := by
  cases m with
  | code => simp only [Mode.readPlain, h.quote]
  | string q => simp only [Mode.readPlain, h.endsString_eq]
  | comment q => rfl

private theorem read_eq (m : Mode) (before : Option Char) (c : Char) (rest : Text) :
    m.read l before c rest = m.read l' before c rest := by
  simp only [Mode.read, h.readPlain_eq, h.startsComment_eq, h.token]

private theorem run_eq (m : Mode) (column : Nat) (before : Option Char) (t : Text) :
    Scan.run l m column before t = Scan.run l' m column before t := by
  induction t generalizing m column before with
  | nil => rfl
  | cons c t ih => simp only [Scan.run, h.read_eq, ih]

private theorem codeOf_eq (number : Nat) (t : Text) : Linter.codeOf l number t = Linter.codeOf l' number t := by
  simp only [Linter.codeOf, Scan.ofLine, h.run_eq]

private theorem readAll_eq (s : BracketStack) (xs : List (Char × Position)) :
    s.readAll l xs = s.readAll l' xs := by
  induction xs generalizing s with
  | nil => rfl
  | cons x xs ih => simp only [BracketStack.readAll, BracketStack.read, h.closing, h.closes, ih]

variable (hl : l.fault? = none) (hl' : l'.fault? = none) (rules : Rules)

private theorem lintLine_eq (s : Nesting) (number : Nat) (t : Text) :
    Linter.lintLine ⟨l, rules, hl⟩ s number t = Linter.lintLine ⟨l', rules, hl'⟩ s number t := by
  simp only [Linter.lintLine, Linter.view, h.codeOf_eq, h.readAll_eq, h.startsComment_eq]

/-- Many lines: both runs have the same stacks before every line. -/
theorem lintLines_eq (s : Nesting) (number : Nat) (lines : List Text) :
    Linter.lintLines ⟨l, rules, hl⟩ s number lines = Linter.lintLines ⟨l', rules, hl'⟩ s number lines := by
  induction lines generalizing s number with
  | nil => rfl
  | cons t rest ih => simp only [Linter.lintLines, h.lintLine_eq hl hl', ih]

theorem lint_eq (text : Text) : Linter.lint ⟨l, rules, hl⟩ text = Linter.lint ⟨l', rules, hl'⟩ text := by
  simp only [Linter.lint, Linter.finish, h.lintLines_eq hl hl']

end Agrees

end Language

namespace Linter

/-- The order of pairs and quotes decides neither whether a description can be used nor what is found with it. -/
theorem lint_rearranged (l l' : Language) (h : l.Rearranges l') :
    (l.fault? = none ↔ l'.fault? = none) ∧
      ∀ (hl : l.fault? = none) (hl' : l'.fault? = none) (rules : Rules) (text : Text),
        lint ⟨l, rules, hl⟩ text = lint ⟨l', rules, hl'⟩ text :=
  ⟨⟨h.faultless, h.symm.faultless⟩, fun hl hl' rules text => (h.agrees hl).lint_eq hl hl' rules text⟩

/-- The pairs of Lua the other way round, and one of its quotes twice. -/
def reversedLua : Language :=
  { Language.lua with quotes := ['\'', '"', '\''], pairs := Language.lua.pairs.reverse }

private theorem rearranges_reversedLua : Language.lua.Rearranges reversedLua where
  token := rfl
  escape := rfl
  pairs := (List.reverse_perm _).symm
  quotes c := by
    simp only [reversedLua, Language.lua, List.mem_cons, List.not_mem_nil, or_false]
    constructor
    · rintro (rfl | rfl) <;> simp
    · rintro (rfl | rfl | rfl) <;> simp

theorem lint_rearranged_reversedLua :
    Language.lua.Rearranges reversedLua ∧
      lint ⟨reversedLua, {}, rfl⟩ "([')'\n\x7d".toList =
        [(Finding.mismatchedCloser ']' '\x7d').report (Span.inLine 1 0 1),
         (Finding.unclosedBracket '(').report (Span.inLine 0 0 1)] :=
  ⟨rearranges_reversedLua,
    ((lint_rearranged _ _ rearranges_reversedLua).2 Language.fault?_lua rfl {} _).symm.trans (by decide)⟩

/-- With a fault the order can matter: an opener of two pairs asks for the closer of the first. -/
example :
    Language.closing? { Language.lua with pairs := [⟨'(', ')'⟩, ⟨'(', ']'⟩] } '(' ≠
      Language.closing? { Language.lua with pairs := [⟨'(', ']'⟩, ⟨'(', ')'⟩] } '(' := by
  decide

end Linter

end ScriptLint
