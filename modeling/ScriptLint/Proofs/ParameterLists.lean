import Mathlib.Data.List.Infix
import ScriptLint.Proofs.Anchors

/-!
# Open parameter lists

The test for an open parameter list looks at the trimmed line, and says where it is open in the untrimmed one.  It
is exact on the untrimmed line (`omissions_parameterList`): a line is reported exactly when it holds `function` and
`(` and no `)`, and then once, from its first `(` to its end.  Trimming takes away none of these pieces, because
none of them starts or ends with a blank (`Text.infix_trim_iff`).

Columns count characters.  They can also be had from octets, by cutting the line and the trimmed line at places
that are counted in octets (`LineView.parameterListByOctets?`).  Such a cut may lie beyond the end of a text or
within a character, and then there is no answer.  Here it never does (`cutAt?_octets`), however many octets the
blanks and the characters of the line take.
-/

namespace ScriptLint

/-! ### Pieces of a trimmed text -/

namespace Text

variable {t u v piece : Text} {c : Char}

private theorem includes_iff : t.includes piece = true ↔ piece <:+: t := by
  induction t with
  | nil => simp [includes]
  | cons c t ih => simp [includes, ih, List.infix_cons_iff]

/-- A piece that does not start with a blank does not reach into the blanks in front of a text. -/
theorem infix_blanks_append (hu : ∀ c ∈ u, isBlank c = true) (hc : piece.head? = some c)
    (hink : isBlank c = false) : piece <:+: u ++ t ↔ piece <:+: t := by
  have hout : ∀ {s : Text}, s.head? = some c → ¬s ⊆ u := by
    intro s hs hsub
    have hblank := hu c (hsub (List.mem_of_head? hs))
    rw [hink] at hblank
    cases hblank
  rw [List.infix_append_iff_ne_nil]
  constructor
  · rintro (h | h | ⟨s, s', hne, -, rfl, hs, -⟩)
    · exact absurd h.subset (hout hc)
    · exact h
    · -- the part that would lie in the blanks holds the first character of the piece
      rw [List.head?_append_of_ne_nil s hne] at hc
      exact absurd hs.subset (hout hc)
  · exact fun h => Or.inr (Or.inl h)

private theorem infix_append_blanks (hv : ∀ c ∈ v, isBlank c = true) (hc : piece.getLast? = some c)
    (hink : isBlank c = false) : piece <:+: t ++ v ↔ piece <:+: t := by
  have hv' : ∀ c ∈ v.reverse, isBlank c = true := fun c hc => hv c (List.mem_reverse.1 hc)
  have hc' : piece.reverse.head? = some c := by rw [List.head?_reverse, hc]
  rw [← List.reverse_infix, List.reverse_append, infix_blanks_append hv' hc' hink, List.reverse_infix]

/-- A piece with no blank at its ends stands in a text exactly when it stands in the trimmed text. -/
theorem infix_trim_iff {a b : Char} (ha : piece.head? = some a) (hb : piece.getLast? = some b)
    (hinka : isBlank a = false) (hinkb : isBlank b = false) : piece <:+: t.trim ↔ piece <:+: t := by
  obtain ⟨blanks, hsplit, hblanks⟩ := t.trim_split
  have hstart : ∀ c ∈ t.takeWhile isBlank, isBlank c = true := fun c hc => List.mem_takeWhile_imp hc
  conv => rhs; rw [hsplit]
  rw [infix_blanks_append hstart ha hinka, infix_append_blanks hblanks hb hinkb]

private theorem mem_trim_iff (hink : isBlank c = false) : c ∈ t.trim ↔ c ∈ t := by
  rw [← List.singleton_infix_iff, infix_trim_iff rfl rfl hink hink, List.singleton_infix_iff]

private theorem length_takeWhile_ne (c : Char) (t : Text) : (t.takeWhile (· != c)).length = t.idxOf c := by
  have hle : t.idxOf c ≤ t.length := List.idxOf_le_length
  have hidx : t.findIdx (fun x => !(x != c)) = t.idxOf c := by
    simp only [List.idxOf, bne, Bool.not_not]
  rw [List.takeWhile_eq_take_findIdx_not, List.length_take, hidx]
  omega

/-- The first `c` of the trimmed text is the first one of the text. -/
theorem indentation_add_idxOf_trim (hc : c ∈ t) (hink : isBlank c = false) :
    t.indentation + t.trim.idxOf c = t.idxOf c := by
  obtain ⟨blanks, hsplit, -⟩ := t.trim_split
  have hstart : c ∉ t.takeWhile isBlank := by
    intro hmem
    have hblank := List.mem_takeWhile_imp hmem
    rw [hink] at hblank
    cases hblank
  have htrim : c ∈ t.trim := (mem_trim_iff hink).2 hc
  conv => rhs; rw [hsplit]
  rw [List.idxOf_append, if_neg hstart, List.idxOf_append, if_pos htrim, indentation, Nat.add_comm]

end Text

/-! ### Octets -/

/-- The octets of a text in UTF-8. -/
def Text.octets (t : Text) : List UInt8 := t.flatMap String.utf8EncodeChar

/-- How many octets stand before the first `c`. -/
def Text.octetOffset? (t : Text) (c : Char) : Option Nat :=
  if c ∈ t then some (Text.octets (t.takeWhile (· != c))).length else none

namespace Octets

/-- Each character has one octet that is its first. -/
def charCount (bs : List UInt8) : Nat := bs.countP fun b => b.IsUTF8FirstByte

/-- The octets before the place `n`, unless it lies beyond the end or within a character. -/
def cutAt? (bs : List UInt8) (n : Nat) : Option (List UInt8) :=
  if n = bs.length ∨ (bs[n]?.any fun b => b.IsUTF8FirstByte) then some (bs.take n) else none

private theorem octets_cons (c : Char) (t : Text) : Text.octets (c :: t) = String.utf8EncodeChar c ++ t.octets :=
  List.flatMap_cons

private theorem octets_append (s t : Text) : Text.octets (s ++ t) = s.octets ++ t.octets :=
  List.flatMap_append

/-- The octets of a character: its first one, and others that are not. -/
theorem exists_utf8EncodeChar (c : Char) :
    ∃ b bs, String.utf8EncodeChar c = b :: bs ∧ b.IsUTF8FirstByte ∧ ∀ x ∈ bs, ¬x.IsUTF8FirstByte := by
  obtain ⟨b, bs, hc⟩ := List.exists_cons_of_ne_nil String.utf8EncodeChar_ne_nil (l := String.utf8EncodeChar c)
  have hfirst : ∀ (i : Nat) (hi : i < (b :: bs).length), (b :: bs)[i].IsUTF8FirstByte ↔ i = 0 := by
    rw [← hc]
    intro i hi
    exact UInt8.isUTF8FirstByte_getElem_utf8EncodeChar
  refine ⟨b, bs, hc, (hfirst 0 (by simp)).2 rfl, fun x hx hx' => ?_⟩
  obtain ⟨i, hi, rfl⟩ := List.getElem_of_mem hx
  have := (hfirst (i + 1) (by simpa using hi)).1 hx'
  omega

private theorem charCount_octets (t : Text) : charCount t.octets = t.length := by
  induction t with
  | nil => rfl
  | cons c t ih =>
    obtain ⟨b, bs, hc, hb, hbs⟩ := exists_utf8EncodeChar c
    have hrest : bs.countP (fun b => b.IsUTF8FirstByte) = 0 := by
      rw [List.countP_eq_zero]
      intro x hx
      simpa using hbs x hx
    unfold charCount at ih ⊢
    rw [octets_cons, List.countP_append, ih, hc, List.countP_cons_of_pos (by simpa using hb), hrest,
      List.length_cons]
    omega

/-- A cut behind some of the characters of a text is neither beyond its end nor within a character. -/
theorem cutAt?_octets (s t : Text) : cutAt? (Text.octets (s ++ t)) s.octets.length = some s.octets := by
  have hcut : s.octets.length = (Text.octets (s ++ t)).length ∨
      ((Text.octets (s ++ t))[s.octets.length]?.any fun b => b.IsUTF8FirstByte) = true := by
    cases t with
    | nil => exact Or.inl (by rw [List.append_nil])
    | cons c t =>
      obtain ⟨b, bs, hc, hb, -⟩ := exists_utf8EncodeChar c
      right
      rw [octets_append, octets_cons, hc, List.getElem?_append_right (Nat.le_refl _), Nat.sub_self]
      simpa using hb
  rw [cutAt?, if_pos hcut, octets_append, List.take_left]

/-- There is no cut within the two octets of `é`, and none beyond its end. -/
example : cutAt? (Text.octets ['é']) 1 = none ∧ cutAt? (Text.octets ['é']) 3 = none := by decide

end Octets

/-! ### The test -/

namespace LineView

open Octets

/-- The column in the text of a place in the trimmed text that is counted in octets. -/
def columnAt? (v : LineView) (offset : Nat) : Option Nat := do
  guard (v.text.trimStart.octets.length ≤ v.text.octets.length)
  let blanks ← cutAt? v.text.octets (v.text.octets.length - v.text.trimStart.octets.length)
  let inner ← cutAt? v.trimmed.octets offset
  return charCount blanks + charCount inner

/-- The test for an open parameter list, with columns that are had from octets.  It has no answer if a cut has
none. -/
def parameterListByOctets? (v : LineView) : Option (List Diagnostic) :=
  if !v.trimmed.includes "function".toList || v.trimmed.contains ')' then some []
  else
    match v.trimmed.octetOffset? '(' with
    | none => some []
    | some offset => do
      let column ← v.columnAt? offset
      return [Finding.unclosedParameterList.report (Span.inLine v.number column v.text.length)]

variable {v : LineView}

/-- The blanks in front of a line end where a character starts, and so does what stands before the first `c`. -/
theorem columnAt?_eq (v : LineView) (c : Char) :
    v.columnAt? (Text.octets (v.trimmed.takeWhile (· != c))).length =
      some (v.text.indentation + (v.trimmed.takeWhile (· != c)).length) := by
  have hstart : v.text.takeWhile isBlank ++ v.text.trimStart = v.text := List.takeWhile_append_dropWhile
  have hlen : v.text.octets.length =
      (Text.octets (v.text.takeWhile isBlank)).length + v.text.trimStart.octets.length := by
    rw [← List.length_append, ← octets_append, hstart]
  have hblanks : cutAt? v.text.octets (v.text.octets.length - v.text.trimStart.octets.length) =
      some (Text.octets (v.text.takeWhile isBlank)) := by
    have hcut := cutAt?_octets (v.text.takeWhile isBlank) v.text.trimStart
    rwa [hstart, show (Text.octets (v.text.takeWhile isBlank)).length =
      v.text.octets.length - v.text.trimStart.octets.length by omega] at hcut
  have hinner : cutAt? v.trimmed.octets (Text.octets (v.trimmed.takeWhile (· != c))).length =
      some (Text.octets (v.trimmed.takeWhile (· != c))) := by
    have hcut := cutAt?_octets (v.trimmed.takeWhile (· != c)) (v.trimmed.dropWhile (· != c))
    rwa [List.takeWhile_append_dropWhile] at hcut
  have hguard : v.text.trimStart.octets.length ≤ v.text.octets.length := by omega
  simp only [columnAt?, guard, if_pos hguard, hblanks, hinner, Option.pure_def, Option.bind_eq_bind, Option.bind_some,
    charCount_octets, Text.indentation]

/-- The test finds the same with octets as with characters. -/
theorem parameterListByOctets?_eq (v : LineView) :
    v.parameterListByOctets? = some (if v.lacksParameterEnd then
      [Finding.unclosedParameterList.report (Span.inLine v.number v.parenColumn v.text.length)] else []) := by
  unfold parameterListByOctets? lacksParameterEnd parenColumn
  cases v.trimmed.includes "function".toList with
  | false => rfl
  | true =>
    cases v.trimmed.contains ')' with
    | true => rfl
    | false =>
      by_cases hopen : '(' ∈ v.trimmed
      · have hoffset : v.trimmed.octetOffset? '(' =
            some (Text.octets (v.trimmed.takeWhile (· != '('))).length := if_pos hopen
        simp only [hoffset, columnAt?_eq, List.contains_iff_mem.2 hopen]
        rfl
      · have hoffset : v.trimmed.octetOffset? '(' = none := if_neg hopen
        have hcontains : v.trimmed.contains '(' = false := by
          rw [Bool.eq_false_iff, ne_eq, List.contains_iff_mem]
          exact hopen
        rw [hoffset, hcontains]
        rfl

private theorem lacksParameterEnd_iff (htrim : v.trimmed = v.text.trim) :
    v.lacksParameterEnd = true ↔ "function".toList <:+: v.text ∧ '(' ∈ v.text ∧ ')' ∉ v.text := by
  have hword : "function".toList <:+: v.text.trim ↔ "function".toList <:+: v.text :=
    Text.infix_trim_iff rfl rfl (by decide) (by decide)
  have hopen : '(' ∈ v.text.trim ↔ '(' ∈ v.text := Text.mem_trim_iff (by decide)
  have hclose : ')' ∈ v.text.trim ↔ ')' ∈ v.text := Text.mem_trim_iff (by decide)
  rw [lacksParameterEnd, Bool.and_eq_true, Bool.and_eq_true, Bool.not_eq_true', ← Bool.not_eq_true,
    List.contains_iff_mem, List.contains_iff_mem, Text.includes_iff, htrim, hword, hopen, hclose, and_assoc,
    and_comm (a := ')' ∉ v.text)]

private theorem parenColumn_eq_idxOf (htrim : v.trimmed = v.text.trim) (hopen : '(' ∈ v.text) :
    v.parenColumn = v.text.idxOf '(' := by
  rw [parenColumn, htrim, Text.length_takeWhile_ne, Text.indentation_add_idxOf_trim hopen (by decide)]

private theorem filter_omissions (v : LineView) {rules : Rules} (hwants : rules.wantsParameterEnd = true) :
    ((v.omissions rules).filter fun d => d.code = .unclosedParameterList) = if v.lacksParameterEnd then
      [Finding.unclosedParameterList.report (Span.inLine v.number v.parenColumn v.text.length)] else [] := by
  have hother : ∀ (b : Bool) {f : Finding}, f.code ≠ .unclosedParameterList →
      ((if b then [f.report v.whole] else []).filter fun d => d.code = .unclosedParameterList) = [] := by
    intro b f hcode
    rw [List.filter_eq_nil_iff]
    intro d hd
    obtain ⟨-, hd⟩ := List.mem_ite_nil_right.1 hd
    rw [List.mem_singleton.1 hd, decide_eq_true_eq]
    exact hcode
  rw [omissions, List.filter_append, List.filter_append, hother _ (by decide), hother _ (by decide), List.append_nil,
    List.append_nil, hwants, Bool.true_and]
  cases v.lacksParameterEnd <;> rfl

/-- An open parameter list is reported exactly when the untrimmed line holds `function` and `(` and no `)`, and
then once, from the first `(` of the line to its end.  Had from octets the report is the same, and no cut fails. -/
theorem omissions_parameterList (v : LineView) (rules : Rules) (htrim : v.trimmed = v.text.trim)
    (hwants : rules.wantsParameterEnd = true) :
    ((∃ d ∈ v.omissions rules, d.code = .unclosedParameterList) ↔
        "function".toList <:+: v.text ∧ '(' ∈ v.text ∧ ')' ∉ v.text) ∧
      ("function".toList <:+: v.text ∧ '(' ∈ v.text ∧ ')' ∉ v.text →
        ((v.omissions rules).filter fun d => d.code = .unclosedParameterList) =
          [Finding.unclosedParameterList.report (Span.inLine v.number (v.text.idxOf '(') v.text.length)]) ∧
      v.parameterListByOctets? = some ((v.omissions rules).filter fun d => d.code = .unclosedParameterList) := by
  have hfilter := v.filter_omissions hwants
  have hlacks := lacksParameterEnd_iff htrim
  refine ⟨?_, fun h => ?_, ?_⟩
  · rw [← hlacks]
    constructor
    · rintro ⟨d, hd, hcode⟩
      have hmem : d ∈ (v.omissions rules).filter fun d => d.code = .unclosedParameterList :=
        List.mem_filter.2 ⟨hd, decide_eq_true hcode⟩
      rw [hfilter, List.mem_ite_nil_right] at hmem
      exact hmem.1
    · intro hlacks
      rw [if_pos hlacks] at hfilter
      have hmem := List.mem_filter.1 (hfilter ▸ List.mem_singleton_self _)
      exact ⟨_, hmem.1, of_decide_eq_true hmem.2⟩
  · rw [hfilter, if_pos (hlacks.2 h), parenColumn_eq_idxOf htrim h.2.1]
  · rw [hfilter, v.parameterListByOctets?_eq]

/-- An ideographic space takes three octets and `é` two; the comment flag and the other rules do not matter. -/
theorem omissions_parameterList_indented :
    "é function f(a".toList = Text.trim "\u3000 é function f(a ".toList ∧
      ((omissions ⟨4, "\u3000 é function f(a ".toList, "é function f(a".toList, true⟩ { wantsThen := false }).filter
          fun d => d.code = .unclosedParameterList) =
        [Finding.unclosedParameterList.report (Span.inLine 4 14 17)] :=
  ⟨by decide, (omissions_parameterList _ _ (by decide) rfl).2.1
    ⟨⟨"\u3000 é ".toList, " f(a ".toList, by decide⟩, by decide, by decide⟩⟩

end LineView

end ScriptLint
