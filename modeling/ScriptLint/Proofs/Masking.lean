import Mathlib.Logic.Relation
import ScriptLint.Proofs.LineGrammar
import ScriptLint.Proofs.Strands

/-!
# Masked text

What stands in a comment or between the quotes of a string has no bearing on brackets: a text may be edited there
in any number of steps without a change to the diagnostics about brackets (`pick_bracket_of_edits`).  In a string
the edit keeps the length, so that what follows keeps its columns, and does not bring in the string's quote or the
escape character.

One edit does not change which code characters a line has (`LineEdit.code_eq`).  Up to the edited segment the scan
of the new line is the scan of the old one (`Factors.exists_run_to`), because a comment token that starts before
the segment does not reach into what is edited; for strings this asks for a token without quotes.
-/

namespace ScriptLint

/-! ### Edits -/

/-- The line `t'` is the line `t` with other text behind the token of its comment, or within one of its strings. -/
inductive LineEdit (l : Language) (t t' : Text) : Prop
  | comment {segments : List Segment} {i : Nat} {new : Text} :
      Factors l t 0 segments → .comment i ∈ segments → '\n' ∉ new →
      t' = t.take (i + l.commentToken.length) ++ new → LineEdit l t t'
  | string {segments : List Segment} {i j : Nat} {q : Char} {new : Text} :
      Factors l t 0 segments → .string i j ∈ segments → t[i]? = some q → new.length = j - (i + 1) →
      '\n' ∉ new → (∀ e, l.escape = some e → e ∉ new) → q ∉ new →
      t' = t.take (i + 1) ++ new ++ t.drop j → LineEdit l t t'
  | openString {segments : List Segment} {i : Nat} {q : Char} {new : Text} :
      Factors l t 0 segments → .openString i ∈ segments → t[i]? = some q → new.length = t.length - (i + 1) →
      '\n' ∉ new → (∀ e, l.escape = some e → e ∉ new) → q ∉ new →
      t' = t.take (i + 1) ++ new → LineEdit l t t'

/-- One line of the text is edited. -/
def TextEdit (l : Language) (text text' : Text) : Prop :=
  ∃ n t t', text.lines[n]? = some t ∧ LineEdit l t t' ∧ text' = Text.unlines (text.lines.set n t')

/-! ### Places that two lines share -/

private theorem Text.getElem?_of_take_eq {t t' : Text} {k n : Nat} (h : t'.take n = t.take n) (hk : k < n) :
    t'[k]? = t[k]? := by
  rw [← List.getElem?_take_of_lt hk, h, List.getElem?_take_of_lt hk]

namespace Language

variable {l : Language} {t t' : Text} {i j k n : Nat} {q : Char}

/-- No character of the comment token is a quote. -/
def HasPlainToken (l : Language) : Prop := ∀ c ∈ l.commentToken, c ∉ l.quotes

private theorem hasPlainToken_lua : lua.HasPlainToken := by
  intro c hc
  obtain rfl : c = '-' := by simpa [lua] using hc
  decide

/-- Whether a token stands at a place depends on as many characters as the token has. -/
theorem TokenAt.of_take_eq (h : t'.take n = t.take n) (hk : k + l.commentToken.length ≤ n) (ht : l.TokenAt t' k) :
    l.TokenAt t k := by
  refine ⟨ht.1, ?_⟩
  have hsame : t'.take (k + l.commentToken.length) = t.take (k + l.commentToken.length) := by
    have := congrArg (List.take (k + l.commentToken.length)) h
    rwa [List.take_take, List.take_take, Nat.min_eq_left hk] at this
  rw [List.prefix_iff_eq_take, List.take_drop, ← hsame, ← List.take_drop, ← List.prefix_iff_eq_take]
  exact ht.2

/-- A token without quotes that stands before a quote ends before it. -/
theorem TokenAt.le_of_quote (hl : l.HasPlainToken) (ht : l.TokenAt t k) (hki : k ≤ i) (hi : t[i]? = some q)
    (hq : q ∈ l.quotes) : k + l.commentToken.length ≤ i := by
  by_contra hlt
  have hget : l.commentToken[i - k]? = some q := by
    rw [List.prefix_iff_eq_take.1 ht.2, List.getElem?_take_of_lt (by omega), List.getElem?_drop,
      show k + (i - k) = i by omega, hi]
  exact hl q (List.mem_of_getElem? hget) hq

theorem ClosesAt.congr (hj : t'[j]? = t[j]?) (hbefore : t'[j - 1]? = t[j - 1]?) (h : l.ClosesAt t q j) :
    l.ClosesAt t' q j :=
  ⟨hj.trans h.char, fun e he => hbefore ▸ h.unescaped e he⟩

end Language

/-- What a segment of a factorisation is. -/
def Segment.Fits (l : Language) (t : Text) : Segment → Prop
  | code i => ∃ c, l.PlainAt t i c
  | string i j => ∃ q, l.StringAt t q i j
  | openString i => ∃ q, l.OpenStringAt t q i
  | comment i => l.TokenAt t i

namespace Factors

variable {l : Language} {t : Text} {p : Nat} {segments : List Segment}

private theorem fits_of_mem (h : Factors l t p segments) {s : Segment} (hs : s ∈ segments) : s.Fits l t := by
  induction h with
  | done => cases hs
  | code hp _ ih =>
    rcases List.mem_cons.1 hs with rfl | hs
    · exact ⟨_, hp⟩
    · exact ih hs
  | string hstr _ ih =>
    rcases List.mem_cons.1 hs with rfl | hs
    · exact ⟨_, hstr⟩
    · exact ih hs
  | openString ho => rw [List.mem_singleton.1 hs]; exact ⟨_, ho⟩
  | comment ht => rw [List.mem_singleton.1 hs]; exact ht

/-- Up to a segment the scan yields the same characters in all lines that agree up to its first place and have no
further comment tokens before it. -/
theorem exists_run_to (h : Factors l t p segments) {s : Segment} (hs : s ∈ segments) :
    ∃ xs, ∀ t' : Text, t'.take (s.start + 1) = t.take (s.start + 1) →
      (∀ k < s.start, l.TokenAt t' k → l.TokenAt t k) →
      (Scan.run l .code p none (t'.drop p)).code =
        xs ++ (Scan.run l .code s.start none (t'.drop s.start)).code := by
  induction h with
  | done => cases hs
  | @code p c segments hp hrest ih =>
    rcases List.mem_cons.1 hs with rfl | hs
    · exact ⟨[], fun _ _ _ => rfl⟩
    · obtain ⟨xs, hxs⟩ := ih hs
      have hstart := hrest.le_start hs
      refine ⟨(p, c) :: xs, fun t' htake htoken => ?_⟩
      have hp' : l.PlainAt t' p c :=
        ⟨(Text.getElem?_of_take_eq htake (by omega)).trans hp.char, hp.plain,
          fun ht => hp.noToken (htoken p (by omega) ht)⟩
      rw [Scan.run_plain hp', hxs t' htake htoken]
      rfl
  | @string p j q segments hstr hrest ih =>
    rcases List.mem_cons.1 hs with rfl | hs
    · exact ⟨[], fun _ _ _ => rfl⟩
    · obtain ⟨xs, hxs⟩ := ih hs
      have hstart := hrest.le_start hs
      have hlt := hstr.lt
      refine ⟨xs, fun t' htake htoken => ?_⟩
      have hsame : ∀ k ≤ j, t'[k]? = t[k]? := fun k hk => Text.getElem?_of_take_eq htake (by omega)
      have hstr' : l.StringAt t' q p j := by
        refine ⟨⟨(hsame p (by omega)).trans hstr.opens.char, hstr.opens.quote,
          fun ht => hstr.opens.noToken (htoken p (by omega) ht)⟩, hlt,
          hstr.closes.congr (hsame j (by omega)) (hsame (j - 1) (by omega)), ?_⟩
        intro k hpk hkj hclose
        exact hstr.first k hpk hkj (hclose.congr (hsame k (by omega)).symm (hsame (k - 1) (by omega)).symm)
      rw [Scan.run_string hstr', hxs t' htake htoken]
  | openString => rw [List.mem_singleton.1 hs]; exact ⟨[], fun _ _ _ => rfl⟩
  | comment => rw [List.mem_singleton.1 hs]; exact ⟨[], fun _ _ _ => rfl⟩

/-- Two lines with the same scan from a segment on, and the same text before it, have the same code characters. -/
theorem code_eq_of_run_eq (h : Factors l t 0 segments) {s : Segment} (hs : s ∈ segments) {t' : Text}
    (htake : t'.take (s.start + 1) = t.take (s.start + 1)) (htoken : ∀ k < s.start, l.TokenAt t' k → l.TokenAt t k)
    (hrun : (Scan.run l .code s.start none (t'.drop s.start)).code =
      (Scan.run l .code s.start none (t.drop s.start)).code) :
    (Scan.ofLine l t').code = (Scan.ofLine l t).code := by
  obtain ⟨xs, hxs⟩ := h.exists_run_to hs
  have hnew := hxs t' htake htoken
  have hold := hxs t rfl fun _ _ ht => ht
  rw [List.drop_zero] at hnew hold
  rw [Scan.ofLine, Scan.ofLine, hnew, hold, hrun]

end Factors

/-! ### The edited line -/

/-- The line `t` with `new` in place of the characters between the places `i` and `j`. -/
private def spliced (t : Text) (i j : Nat) (new : Text) : Text := t.take (i + 1) ++ new ++ t.drop j

section Spliced

variable {l : Language} {t new : Text} {i j k : Nat} {q : Char}

private theorem take_spliced (hj : j ≤ t.length) (hij : i < j) :
    (spliced t i j new).take (i + 1) = t.take (i + 1) := by
  have hlen : (t.take (i + 1)).length = i + 1 := by simp; omega
  rw [spliced, List.append_assoc, List.take_append_of_le_length (by omega), List.take_of_length_le (by omega)]

private theorem getElem?_spliced_inner (hj : j ≤ t.length) (hnew : new.length = j - (i + 1)) (hik : i < k)
    (hkj : k < j) : ∃ c ∈ new, (spliced t i j new)[k]? = some c := by
  have hlen : (t.take (i + 1)).length = i + 1 := by simp; omega
  have hlt : k - (i + 1) < new.length := by omega
  refine ⟨new[k - (i + 1)], List.getElem_mem hlt, ?_⟩
  rw [spliced, List.getElem?_append_left (by simp; omega), List.getElem?_append_right (by omega), hlen,
    List.getElem?_eq_getElem hlt]

private theorem drop_spliced (hj : j ≤ t.length) (hij : i < j) (hnew : new.length = j - (i + 1)) (hjk : j ≤ k) :
    (spliced t i j new).drop k = t.drop k := by
  have hlen : (t.take (i + 1) ++ new).length = j := by simp; omega
  rw [spliced, List.drop_append, List.drop_eq_nil_of_le (by omega), List.nil_append, hlen, List.drop_drop]
  congr 1
  omega

private theorem getElem?_spliced_outer (hj : j ≤ t.length) (hij : i < j) (hnew : new.length = j - (i + 1))
    (hk : k ≤ i ∨ j ≤ k) : (spliced t i j new)[k]? = t[k]? := by
  rcases hk with hk | hk
  · exact Text.getElem?_of_take_eq (take_spliced hj hij) (by omega)
  · have h := congrArg List.head? (drop_spliced hj hij hnew hk)
    rwa [List.head?_drop, List.head?_drop] at h

/-- The quote at `i` still opens a string, and no comment token has come up before it. -/
private theorem opensAt_spliced (hl : l.HasPlainToken) (hj : j ≤ t.length) (hij : i < j) (ho : l.OpensAt t i q) :
    l.OpensAt (spliced t i j new) i q ∧ ∀ k < i, l.TokenAt (spliced t i j new) k → l.TokenAt t k := by
  have htake : (spliced t i j new).take (i + 1) = t.take (i + 1) := take_spliced hj hij
  have hchar : (spliced t i j new)[i]? = some q :=
    (Text.getElem?_of_take_eq htake (Nat.lt_succ_self i)).trans ho.char
  refine ⟨⟨hchar, ho.quote, fun ht => ?_⟩, fun k hk ht => ?_⟩
  · have hle := ht.le_of_quote hl (Nat.le_refl i) hchar ho.quote
    have hpos := List.length_pos_iff.2 ht.1
    omega
  · have hle := ht.le_of_quote hl (Nat.le_of_lt hk) hchar ho.quote
    exact ht.of_take_eq htake (by omega)

/-- The new text does not close the string. -/
private theorem not_closesAt_spliced (hj : j ≤ t.length) (hnew : new.length = j - (i + 1)) (hq : q ∉ new)
    (hik : i < k) (hkj : k < j) : ¬l.ClosesAt (spliced t i j new) q k := by
  intro hc
  obtain ⟨c, hmem, hchar⟩ := getElem?_spliced_inner hj hnew hik hkj
  rw [hc.char, Option.some.injEq] at hchar
  exact hq (hchar ▸ hmem)

private theorem stringAt_spliced (hl : l.HasPlainToken) (h : l.StringAt t q i j) (hnew : new.length = j - (i + 1))
    (hescape : ∀ e, l.escape = some e → e ∉ new) (hq : q ∉ new) : l.StringAt (spliced t i j new) q i j := by
  have hlt := h.lt
  have hj := Nat.le_of_lt (Text.lt_of_char h.closes.char)
  have hlast := getElem?_spliced_outer (k := j) hj hlt hnew (by omega)
  refine ⟨(opensAt_spliced hl hj hlt h.opens).1, hlt, ⟨hlast.trans h.closes.char, fun e he hbefore => ?_⟩,
    fun k hik hkj => not_closesAt_spliced hj hnew hq hik hkj⟩
  -- before the closing quote stands the opening one, or the new text
  by_cases hempty : j - 1 ≤ i
  · rw [getElem?_spliced_outer hj hlt hnew (Or.inl hempty)] at hbefore
    exact h.closes.unescaped e he hbefore
  · obtain ⟨c, hmem, hchar⟩ := getElem?_spliced_inner (k := j - 1) hj hnew (by omega) (by omega)
    rw [hbefore, Option.some.injEq] at hchar
    exact hescape e he (hchar ▸ hmem)

private theorem openStringAt_spliced (hl : l.HasPlainToken) (h : l.OpenStringAt t q i)
    (hnew : new.length = t.length - (i + 1)) (hq : q ∉ new) : l.OpenStringAt (spliced t i t.length new) q i := by
  have hlt := h.opens.lt
  refine ⟨(opensAt_spliced hl (Nat.le_refl _) hlt h.opens).1, fun k hik hc => ?_⟩
  by_cases hk : k < t.length
  · exact not_closesAt_spliced (Nat.le_refl _) hnew hq hik hk hc
  · have hchar := hc.char
    rw [getElem?_spliced_outer (Nat.le_refl _) hlt hnew (by omega)] at hchar
    exact hk (Text.lt_of_char hchar)

end Spliced

namespace LineEdit

variable {l : Language} {t t' : Text}

private theorem newline_not_mem (h : LineEdit l t t') (ht : '\n' ∉ t) : '\n' ∉ t' := by
  cases h with
  | comment _ _ hnew heq =>
    simp only [heq, List.mem_append, not_or]
    exact ⟨fun hm => ht (List.mem_of_mem_take hm), hnew⟩
  | string _ _ _ _ hnew _ _ heq =>
    simp only [heq, List.mem_append, not_or]
    exact ⟨⟨fun hm => ht (List.mem_of_mem_take hm), hnew⟩, fun hm => ht (List.mem_of_mem_drop hm)⟩
  | openString _ _ _ _ hnew _ _ heq =>
    simp only [heq, List.mem_append, not_or]
    exact ⟨fun hm => ht (List.mem_of_mem_take hm), hnew⟩

/-- An edit keeps the code characters of a line and their columns. -/
theorem code_eq (hl : l.HasPlainToken) (h : LineEdit l t t') :
    (Scan.ofLine l t').code = (Scan.ofLine l t).code := by
  cases h with
  | @comment segments i new hf hs _ heq =>
    have hcomment : l.TokenAt t i := hf.fits_of_mem hs
    have hlen := hcomment.2.length_le
    have hpos := List.length_pos_iff.2 hcomment.1
    rw [List.length_drop] at hlen
    have htake : t'.take (i + l.commentToken.length) = t.take (i + l.commentToken.length) := by
      rw [heq, List.take_append_of_le_length (by simp; omega), List.take_take, Nat.min_self]
    have hcomment' : l.TokenAt t' i := hcomment.of_take_eq htake.symm (Nat.le_refl _)
    refine hf.code_eq_of_run_eq hs ?_ (fun k hk ht => ht.of_take_eq htake (by simp [Segment.start] at hk; omega)) ?_
    · have := congrArg (List.take (i + 1)) htake
      rwa [List.take_take, List.take_take, Nat.min_eq_left (by omega)] at this
    · simp only [Segment.start, Scan.run_comment hcomment, Scan.run_comment hcomment']
  | @string segments i j q new hf hs hchar hnew _ hescape hq heq =>
    obtain ⟨q', hstr⟩ : ∃ q', l.StringAt t q' i j := hf.fits_of_mem hs
    obtain rfl : q = q' := Option.some.inj (hchar.symm.trans hstr.opens.char)
    have hlt := hstr.lt
    have hj := Nat.le_of_lt (Text.lt_of_char hstr.closes.char)
    obtain rfl : t' = spliced t i j new := heq
    refine hf.code_eq_of_run_eq hs (take_spliced hj hlt) (opensAt_spliced hl hj hlt hstr.opens).2 ?_
    simp only [Segment.start, Scan.run_string hstr, Scan.run_string (stringAt_spliced hl hstr hnew hescape hq),
      drop_spliced hj hlt hnew (Nat.le_succ j)]
  | @openString segments i q new hf hs hchar hnew _ _ hq heq =>
    obtain ⟨q', hopen⟩ : ∃ q', l.OpenStringAt t q' i := hf.fits_of_mem hs
    obtain rfl : q = q' := Option.some.inj (hchar.symm.trans hopen.opens.char)
    have hlt := hopen.opens.lt
    obtain rfl : t' = spliced t i t.length new := by rw [heq, spliced, List.drop_length, List.append_nil]
    refine hf.code_eq_of_run_eq hs (take_spliced (Nat.le_refl _) hlt)
      (opensAt_spliced hl (Nat.le_refl _) hlt hopen.opens).2 ?_
    simp only [Segment.start, Scan.run_openString hopen, Scan.run_openString (openStringAt_spliced hl hopen hnew hq)]

end LineEdit

/-! ### Texts -/

/-- The code characters of a text are those of its lines. -/
private theorem codeFrom_congr {l : Language} {lines lines' : List Text}
    (h : (lines.map fun t => (Scan.ofLine l t).code) = lines'.map fun t => (Scan.ofLine l t).code) (number : Nat) :
    Linter.codeFrom l number lines = Linter.codeFrom l number lines' := by
  induction lines generalizing lines' number with
  | nil => rw [List.map_eq_nil_iff.1 h.symm]
  | cons t rest ih =>
    obtain ⟨t', rest', rfl, hhead, htail⟩ := List.map_eq_cons_iff.1 h.symm
    rw [Linter.codeFrom_cons, Linter.codeFrom_cons, ih htail.symm, Linter.codeOf, Linter.codeOf, hhead]

private theorem TextEdit.codeFrom_eq {l : Language} (hl : l.HasPlainToken) {text text' : Text}
    (h : TextEdit l text text') : Linter.codeFrom l 0 text'.lines = Linter.codeFrom l 0 text.lines := by
  obtain ⟨n, t, t', hline, hedit, rfl⟩ := h
  obtain ⟨hn, hget⟩ := List.getElem?_eq_some_iff.1 hline
  have ht : '\n' ∉ t := Text.newline_not_mem_of_mem_lines (List.mem_of_getElem? hline)
  have hlines : (Text.unlines (text.lines.set n t')).lines = text.lines.set n t' := by
    refine Text.lines_unlines (by simpa using text.lines_ne_nil) fun u hu => ?_
    rcases List.mem_or_eq_of_mem_set hu with hu | rfl
    · exact Text.newline_not_mem_of_mem_lines hu
    · exact hedit.newline_not_mem ht
  refine codeFrom_congr ?_ 0
  rw [hlines, List.map_set, hedit.code_eq hl, ← hget, ← List.map_set, List.set_getElem_self]

namespace Linter

/-- For Lua, edits within comments and strings, one after the other, do not change the diagnostics about brackets.
-/
theorem pick_bracket_of_edits (rules : Rules) (text text' : Text)
    (h : Relation.ReflTransGen (TextEdit .lua) text text') :
    Strand.bracket.pick (lint ⟨.lua, rules, Language.fault?_lua⟩ text') =
      Strand.bracket.pick (lint ⟨.lua, rules, Language.fault?_lua⟩ text) := by
  induction h with
  | refl => rfl
  | tail _ hedit ih =>
    rw [← ih, pick_bracket_lint, pick_bracket_lint]
    exact congrArg (BracketStack.report .lua) (hedit.codeFrom_eq Language.hasPlainToken_lua)

/-- A string and then a comment are edited, and now hold other brackets. -/
private theorem edits_stray :
    Relation.ReflTransGen (TextEdit .lua) "(\"(\")\n)--(".toList "(\"]\")\n)--]]".toList := by
  have hstring : Factors .lua "(\"(\")".toList 0 [.code 0, .string 1 3, .code 4] := by
    refine .code (c := '(') ⟨rfl, by decide, by decide⟩ (.string (q := '"') ⟨⟨rfl, by decide, by decide⟩, by decide,
      ⟨rfl, ?_⟩, ?_⟩ (.code (c := ')') ⟨rfl, by decide, by decide⟩ .done))
    · rintro e ⟨⟩
      decide
    · intro k h1 h3 hclose
      obtain rfl : k = 2 := by omega
      exact absurd hclose.char (by decide)
  have hcomment : Factors .lua ")--(".toList 0 [.code 0, .comment 1] :=
    .code (c := ')') ⟨rfl, by decide, by decide⟩ (.comment (by decide))
  have hwithin : LineEdit .lua "(\"(\")".toList "(\"]\")".toList := by
    have hlength : [']'].length = 3 - (1 + 1) := rfl
    refine .string (i := 1) (j := 3) (q := '"') hstring (by decide) rfl hlength (by decide) ?_ (by decide) rfl
    rintro e ⟨⟩
    decide
  have hbehind : LineEdit .lua ")--(".toList ")--]]".toList := by
    have hnew : '\n' ∉ [']', ']'] := by decide
    exact .comment (i := 1) hcomment (by decide) hnew rfl
  exact .tail (b := "(\"]\")\n)--(".toList) (.single ⟨0, _, _, rfl, hwithin, by decide⟩)
    ⟨1, _, _, rfl, hbehind, by decide⟩

/-- The stray closer of the second line is found before and after the edits, and nothing else. -/
theorem pick_bracket_of_edits_stray :
    Relation.ReflTransGen (TextEdit .lua) "(\"(\")\n)--(".toList "(\"]\")\n)--]]".toList ∧
      Strand.bracket.pick (default.lint "(\"]\")\n)--]]".toList) =
        [(Finding.unexpectedCloser ')').report (Span.inLine 1 0 1)] :=
  ⟨edits_stray, (pick_bracket_of_edits {} _ _ edits_stray).trans (by decide)⟩

end Linter

end ScriptLint
