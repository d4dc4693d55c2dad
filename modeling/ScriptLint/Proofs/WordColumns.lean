import ScriptLint.Proofs.Anchors

/-!
# Columns in words

A bracket stack by itself counts columns in words (`BracketStack.report?`).  It says the same as the stack of the
linter (`BracketStack.report`), whatever a build makes of an overflow, unless a bracket stands in the column that
is the largest word (`report?_eq_report`).  A line with fewer characters than there are words has no such column,
so the two agree on texts (`Linter.report?_codeFrom`).
-/

namespace ScriptLint

namespace BracketStack

variable {l : Language} {s : BracketStack} {c : Char} {p : Position} {xs : List (Char × Position)}

private theorem read?_eq_read (o : Overflow) (s : BracketStack)
    (h : l.isBracket c = true → p.column + 1 < UInt64.size) : s.read? o l c p = some (s.read l c p) := by
  unfold read? read
  cases l.closing? c with
  | some e => rfl
  | none =>
    by_cases hc : l.closes c = true
    · have hbracket : l.isBracket c = true := by simp [Language.isBracket, hc]
      rw [if_pos hc, if_pos hc, Position.cell?_of_lt o (h hbracket)]
      rfl
    · rw [if_neg hc, if_neg hc]

private theorem readAll?_eq_readAll (o : Overflow) (s : BracketStack)
    (h : ∀ x ∈ xs, l.isBracket x.1 = true → x.2.column + 1 < UInt64.size) :
    s.readAll? o l xs = some (s.readAll l xs) := by
  induction xs generalizing s with
  | nil => rfl
  | cons x rest ih =>
    have hx := read?_eq_read o s (h x List.mem_cons_self)
    have hrest := ih (s.read l x.1 x.2).1 fun y hy => h y (List.mem_cons_of_mem x hy)
    simp only [readAll?, hx, hrest, Option.bind_eq_bind, Option.bind_some]
    rfl

private theorem mapM_unclosed? (o : Overflow) (width : Nat) {bs : List OpenBracket}
    (h : ∀ b ∈ bs, b.position.column + 1 < UInt64.size) :
    bs.mapM (OpenBracket.unclosed? o) = some (bs.map fun b => Opened.unclosed b width) := by
  induction bs with
  | nil => rfl
  | cons b rest ih =>
    have hb : b.unclosed? o = some (Opened.unclosed b width) := by
      rw [OpenBracket.unclosed?, Position.cell?_of_lt o (h b List.mem_cons_self)]
      rfl
    have hrest := ih fun a ha => h a (List.mem_cons_of_mem b ha)
    rw [List.mapM_cons, hb, hrest]
    rfl

private theorem unclosed?_eq_unclosed (o : Overflow) (width : Nat)
    (h : ∀ b ∈ s.items, b.position.column + 1 < UInt64.size) :
    s.unclosed? o = some (s.unclosed width) :=
  mapM_unclosed? o width fun b hb => h b (List.mem_reverse.1 hb)

/-- What a fresh stack says does not depend on words, unless a bracket stands in the last column that there is. -/
theorem report?_eq_report (o : Overflow) (h : ∀ x ∈ xs, l.isBracket x.1 = true → x.2.column + 1 < UInt64.size) :
    report? o l xs = some (report l xs) := by
  have hopen : ∀ b ∈ (readAll .empty l xs).1.items, b.position.column + 1 < UInt64.size := by
    intro b hb
    rcases mem_items_readAll hb with hb | ⟨x, hx, e, he, rfl⟩
    · cases hb
    · have hopens : l.opens x.1 = true := Language.opens_iff_closing?.2 ⟨e, he⟩
      exact h x hx (by simp [Language.isBracket, hopens])
  simp only [report?, readAll?_eq_readAll o .empty h, Option.bind_eq_bind, Option.bind_some,
    unclosed?_eq_unclosed o 1 hopen]
  rfl

end BracketStack

/-- In every build, the stack that counts in words reports of a text what the linter does, as long as its lines
have fewer characters than there are words. -/
theorem Linter.report?_codeFrom (o : Overflow) (lt : Linter) (t : Text)
    (h : ∀ line ∈ t.lines, line.length < UInt64.size) :
    BracketStack.report? o lt.language (codeFrom lt.language 0 t.lines) =
      some (Strand.bracket.pick (lt.lint t)) := by
  rw [pick_bracket_lint]
  refine BracketStack.report?_eq_report o fun x hx _ => ?_
  obtain ⟨line, hline, hcode⟩ := exists_line_of_mem_codeFrom hx
  obtain ⟨hlt, -⟩ := List.getElem?_eq_some_iff.1 (Scan.getElem?_of_mem_ofLine hcode)
  have hlen := h line (List.mem_of_getElem? hline)
  omega

end ScriptLint
