import Mathlib.Data.List.Nodup
import Mathlib.Data.List.Pairwise
import ScriptLint.Language.Fault

/-!
# The roles of bracket characters

A language without faults gives every bracket character one role (`fault?_eq_none_iff`).  The key facts: a
character opens at most one pair, so `closing?` is membership in the list of pairs (`closing?_eq_some_iff`), and no
character both opens and closes (`opens_of_closes`).
-/

namespace ScriptLint

namespace Language

variable {l : Language} {c d : Char}

/-- Does `c` open a bracket of some pair? -/
def opens (l : Language) (c : Char) : Bool := l.pairs.any fun p => p.opener == c

def isBracket (l : Language) (c : Char) : Bool := l.opens c || l.closes c

theorem opens_iff : l.opens c = true ↔ ∃ p ∈ l.pairs, p.opener = c := by
  simp [opens]

theorem closes_iff : l.closes c = true ↔ ∃ p ∈ l.pairs, p.closer = c := by
  simp [closes]

private theorem opens_eq_isSome (l : Language) (c : Char) : l.opens c = (l.closing? c).isSome := by
  rw [Bool.eq_iff_iff, opens_iff]
  simp [closing?]

theorem opens_iff_closing? : l.opens c = true ↔ ∃ e, l.closing? c = some e := by
  rw [opens_eq_isSome, Option.isSome_iff_exists]

theorem closing?_eq_none_iff : l.closing? c = none ↔ l.opens c = false := by
  rw [opens_eq_isSome, Option.isSome_eq_false_iff, Option.isNone_iff_eq_none]

/-! ### Faultless descriptions -/

/-- A list of pairs has no fault exactly when its characters are distinct and not among those seen before. -/
theorem pairFault?_eq_none_iff (seen : List Char) (ps : List BracketPair) :
    pairFault? seen ps = none ↔
      (ps.flatMap fun p => [p.opener, p.closer]).Nodup ∧
        ∀ c ∈ ps.flatMap fun p => [p.opener, p.closer], c ∉ seen := by
  induction ps generalizing seen with
  | nil => simp [pairFault?]
  | cons p ps ih =>
    unfold pairFault?
    by_cases hp : p.opener = p.closer
    · simp [hp]
    by_cases ho : p.opener ∈ seen
    · simp [hp, ho]
    by_cases hc : p.closer ∈ seen
    · simp [hp, ho, hc]
    rw [if_neg hp, if_neg ho, if_neg hc, ih]
    -- the characters of `p` join those seen, and are asked to be new for the rest
    simp only [List.flatMap_cons, List.cons_append, List.nil_append, List.nodup_cons, List.mem_cons, not_or]
    constructor
    · rintro ⟨hnd, hnew⟩
      refine ⟨⟨⟨hp, fun h => (hnew _ h).1 rfl⟩, fun h => (hnew _ h).2.1 rfl, hnd⟩, ?_⟩
      rintro c (rfl | rfl | h)
      · exact ho
      · exact hc
      · exact (hnew c h).2.2
    · rintro ⟨⟨⟨-, ho'⟩, hc', hnd⟩, hnew⟩
      refine ⟨hnd, fun c h => ⟨?_, ?_, hnew c (Or.inr (Or.inr h))⟩⟩
      · rintro rfl; exact ho' h
      · rintro rfl; exact hc' h

/-- A description can be used exactly when every character has at most one role. -/
theorem fault?_eq_none_iff (l : Language) :
    l.fault? = none ↔
      l.commentToken ≠ [] ∧ l.bracketChars.Nodup ∧ ∀ q ∈ l.quotes, q ∉ l.bracketChars := by
  unfold fault?
  by_cases ht : l.commentToken = []
  · simp [ht]
  · have hpairs := pairFault?_eq_none_iff [] l.pairs
    simp only [List.not_mem_nil, not_false_eq_true, implies_true, and_true] at hpairs
    simp [ht, Option.or_eq_none_iff, hpairs, quoteFault?, bracketChars]

private theorem nodup_bracketChars (h : l.fault? = none) : l.bracketChars.Nodup :=
  ((fault?_eq_none_iff l).1 h).2.1

/-- Two pairs that share a character are the same pair. -/
theorem eq_of_shared (h : l.fault? = none) {p q : BracketPair} (hp : p ∈ l.pairs) (hq : q ∈ l.pairs)
    (hcp : c ∈ [p.opener, p.closer]) (hcq : c ∈ [q.opener, q.closer]) : p = q := by
  have hdisj := (List.nodup_flatMap.1 (nodup_bracketChars h)).2
  have hsymm : Std.Symm (Function.onFun List.Disjoint fun p : BracketPair => [p.opener, p.closer]) :=
    ⟨fun _ _ hab _ hb ha => hab ha hb⟩
  by_contra hne
  exact hdisj.forall hp hq hne hcp hcq

private theorem opener_ne_closer (h : l.fault? = none) {p : BracketPair} (hp : p ∈ l.pairs) :
    p.opener ≠ p.closer := by
  have hnd := (List.nodup_flatMap.1 (nodup_bracketChars h)).1 p hp
  simpa using hnd

/-- The closer that an opener asks for is that of its only pair. -/
theorem closing?_eq_some_iff (h : l.fault? = none) : l.closing? c = some d ↔ ⟨c, d⟩ ∈ l.pairs := by
  unfold closing?
  rw [Option.map_eq_some_iff]
  constructor
  · rintro ⟨p, hfind, rfl⟩
    have hopen : p.opener = c := by simpa using List.find?_some hfind
    rw [← hopen]
    exact List.mem_of_find?_eq_some hfind
  · intro hmem
    obtain ⟨p, hfind⟩ : ∃ p, l.pairs.find? (fun p => p.opener == c) = some p := by
      rw [← Option.isSome_iff_exists, List.find?_isSome]
      exact ⟨⟨c, d⟩, hmem, by simp⟩
    have hopen : p.opener = c := by simpa using List.find?_some hfind
    have hp : p = ⟨c, d⟩ :=
      eq_of_shared (c := c) h (List.mem_of_find?_eq_some hfind) hmem (by simp [hopen]) (by simp)
    exact ⟨p, hfind, by rw [hp]⟩

theorem opens_of_closes (h : l.fault? = none) (hc : l.closes c = true) : l.opens c = false := by
  rw [Bool.eq_false_iff]
  intro ho
  obtain ⟨p, hp, hpc⟩ := opens_iff.1 ho
  obtain ⟨q, hq, hqc⟩ := closes_iff.1 hc
  have hpq : p = q := eq_of_shared (c := c) h hp hq (by simp [hpc]) (by simp [hqc])
  subst hpq
  exact opener_ne_closer h hp (hpc.trans hqc.symm)

theorem isQuote_of_isBracket (h : l.fault? = none) (hc : l.isBracket c = true) : l.isQuote c = false := by
  have hmem : c ∈ l.bracketChars := by
    rw [isBracket, Bool.or_eq_true, opens_iff, closes_iff] at hc
    simp only [bracketChars, List.mem_flatMap, List.mem_cons, List.not_mem_nil, or_false]
    rcases hc with ⟨p, hp, rfl⟩ | ⟨p, hp, rfl⟩
    · exact ⟨p, hp, Or.inl rfl⟩
    · exact ⟨p, hp, Or.inr rfl⟩
  rw [Bool.eq_false_iff]
  intro hquote
  exact ((fault?_eq_none_iff l).1 h).2.2 c (List.contains_iff_mem.1 hquote) hmem

theorem closes_of_opens (h : l.fault? = none) (ho : l.opens c = true) : l.closes c = false := by
  rw [Bool.eq_false_iff]
  intro hc
  rw [opens_of_closes h hc] at ho
  cases ho

end Language

end ScriptLint
