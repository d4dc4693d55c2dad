import ScriptLint.Proofs.BracketRoles

/-!
# The first fault of a description

The check of a language description accepts exactly the usable ones, and says of any other one what is wrong with
it first (`fault?_exact`).  What is wrong is said here by places: `PairFault` is about one pair and the pairs
before it, `QuoteFault` about one quote, and `FirstFault` puts the token before the pairs, the pairs before the
quotes, and earlier places before later ones.

The check goes through the pairs once and keeps the characters that it has seen.  The invariant of this loop is
that these are the characters used before the current place (`UsedBefore`), so that what it finds at a place is the
fault of that place (`pairFault_iff`).
-/

namespace ScriptLint

namespace Language

/-- `c` is a character of one of the pairs before the place `i`. -/
def UsedBefore (l : Language) (i : Nat) (c : Char) : Prop :=
  ∃ j p, j < i ∧ l.pairs[j]? = some p ∧ (c = p.opener ∨ c = p.closer)

/-- What is wrong with the pair at the place `i`: it closes itself, or else one of its characters, the opener
before the closer, is used by a pair before it. -/
inductive PairFault (l : Language) (i : Nat) : LanguageFault → Prop
  | selfClosing {p : BracketPair} :
      l.pairs[i]? = some p → p.opener = p.closer → PairFault l i (.selfClosing p)
  | opener {p : BracketPair} :
      l.pairs[i]? = some p → p.opener ≠ p.closer → l.UsedBefore i p.opener →
        PairFault l i (.sharedBracket p.opener)
  | closer {p : BracketPair} :
      l.pairs[i]? = some p → p.opener ≠ p.closer → ¬l.UsedBefore i p.opener → l.UsedBefore i p.closer →
        PairFault l i (.sharedBracket p.closer)

/-- What is wrong with the quote at the place `i`: it is a bracket. -/
inductive QuoteFault (l : Language) (i : Nat) : LanguageFault → Prop
  | bracket {q : Char} : l.quotes[i]? = some q → q ∈ l.bracketChars → QuoteFault l i (.quoteBracket q)

/-- The fault that comes first: of the token, else of the first pair that has one, else of the first quote. -/
inductive FirstFault (l : Language) : LanguageFault → Prop
  | token : l.commentToken = [] → FirstFault l .emptyToken
  | pair {i : Nat} {f : LanguageFault} :
      l.commentToken ≠ [] → l.PairFault i f → (∀ j < i, ∀ g, ¬l.PairFault j g) → FirstFault l f
  | quote {i : Nat} {f : LanguageFault} :
      l.commentToken ≠ [] → (∀ j g, ¬l.PairFault j g) → l.QuoteFault i f → (∀ j < i, ∀ g, ¬l.QuoteFault j g) →
        FirstFault l f

variable {l : Language} {i : Nat} {p : BracketPair} {f : LanguageFault}

/-! ### Pairs -/

theorem not_usedBefore_zero (c : Char) : ¬l.UsedBefore 0 c := by
  rintro ⟨j, p, hj, -⟩
  omega

private theorem usedBefore_succ (hp : l.pairs[i]? = some p) (c : Char) :
    l.UsedBefore (i + 1) c ↔ c = p.opener ∨ c = p.closer ∨ l.UsedBefore i c := by
  constructor
  · rintro ⟨j, q, hj, hq, hc⟩
    by_cases hji : j = i
    · obtain rfl : p = q := Option.some.inj (hp.symm.trans (hji ▸ hq))
      exact hc.elim Or.inl fun h => Or.inr (Or.inl h)
    · exact Or.inr (Or.inr ⟨j, q, by omega, hq, hc⟩)
  · rintro (hc | hc | ⟨j, q, hj, hq, hc⟩)
    · exact ⟨i, p, by omega, hp, Or.inl hc⟩
    · exact ⟨i, p, by omega, hp, Or.inr hc⟩
    · exact ⟨j, q, by omega, hq, hc⟩

/-- What the check finds at one pair. -/
def ownFault? (seen : List Char) (p : BracketPair) : Option LanguageFault :=
  if p.opener = p.closer then some (.selfClosing p)
  else if p.opener ∈ seen then some (.sharedBracket p.opener)
  else if p.closer ∈ seen then some (.sharedBracket p.closer)
  else none

private theorem pairFault?_cons (seen : List Char) (p : BracketPair) (ps : List BracketPair) :
    pairFault? seen (p :: ps) = (ownFault? seen p).or (pairFault? (p.opener :: p.closer :: seen) ps) := by
  unfold ownFault?
  rw [pairFault?]
  split_ifs <;> rfl

/-- One pair: if the characters seen are those used before, what is found is what is wrong. -/
theorem pairFault_iff {seen : List Char} (hseen : ∀ c, c ∈ seen ↔ l.UsedBefore i c) (hp : l.pairs[i]? = some p) :
    l.PairFault i f ↔ ownFault? seen p = some f := by
  have hpair : ∀ {q : BracketPair}, l.pairs[i]? = some q → p = q := fun hq => Option.some.inj (hp.symm.trans hq)
  unfold ownFault?
  constructor
  · rintro (⟨hq, hself⟩ | ⟨hq, hne, hopener⟩ | ⟨hq, hne, hopener, hcloser⟩) <;> obtain rfl := hpair hq
    · rw [if_pos hself]
    · rw [if_neg hne, if_pos ((hseen _).2 hopener)]
    · rw [if_neg hne, if_neg fun h => hopener ((hseen _).1 h), if_pos ((hseen _).2 hcloser)]
  · intro hfound
    split_ifs at hfound with hself hopener hcloser <;> cases hfound
    · exact .selfClosing hp hself
    · exact .opener hp hself ((hseen _).1 hopener)
    · exact .closer hp hself (fun h => hopener ((hseen _).2 h)) ((hseen _).1 hcloser)

private theorem not_pairFault_of_length_le (h : l.pairs.length ≤ i) : ¬l.PairFault i f := by
  have hnone : l.pairs[i]? = none := List.getElem?_eq_none h
  rintro (⟨hp, -⟩ | ⟨hp, -, -⟩ | ⟨hp, -, -, -⟩) <;> simp [hnone] at hp

/-- The pairs from a place on: what is found is the fault of the first of them that has one. -/
theorem pairFault?_eq_some_iff {seen : List Char} {ps : List BracketPair} (hps : l.pairs.drop i = ps)
    (hseen : ∀ c, c ∈ seen ↔ l.UsedBefore i c) :
    pairFault? seen ps = some f ↔
      ∃ k, i ≤ k ∧ l.PairFault k f ∧ ∀ j, i ≤ j → j < k → ∀ g, ¬l.PairFault j g := by
  induction ps generalizing seen i with
  | nil =>
    have hlen := List.drop_eq_nil_iff.1 hps
    constructor
    · intro h
      cases h
    · rintro ⟨k, hik, hk, -⟩
      exact absurd hk (not_pairFault_of_length_le (by omega))
  | cons p ps ih =>
    have hp : l.pairs[i]? = some p := by
      rw [← List.head?_drop, hps]
      rfl
    have hrest : l.pairs.drop (i + 1) = ps := by
      rw [← List.tail_drop, hps]
      rfl
    have hseen' : ∀ c, c ∈ p.opener :: p.closer :: seen ↔ l.UsedBefore (i + 1) c := by
      intro c
      rw [usedBefore_succ hp, ← hseen c, List.mem_cons, List.mem_cons]
    rw [pairFault?_cons]
    cases hown : ownFault? seen p with
    | some g =>
      -- the pair at `i` has a fault, so the first place with a fault is `i`
      have hg : l.PairFault i g := (pairFault_iff hseen hp).2 hown
      rw [Option.some_or]
      constructor
      · intro h
        cases h
        exact ⟨i, Nat.le_refl i, hg, fun j hij hji => by omega⟩
      · rintro ⟨k, hik, hk, hfirst⟩
        by_cases hki : k = i
        · rw [hki, pairFault_iff hseen hp] at hk
          rw [← hown, hk]
        · exact absurd hg (hfirst i (Nat.le_refl i) (by omega) g)
    | none =>
      have hnone : ∀ g, ¬l.PairFault i g := by
        intro g hg
        rw [pairFault_iff hseen hp, hown] at hg
        cases hg
      rw [Option.none_or, ih hrest hseen']
      constructor
      · rintro ⟨k, hik, hk, hfirst⟩
        refine ⟨k, by omega, hk, fun j hij hjk g hg => ?_⟩
        by_cases hji : j = i
        · exact hnone g (hji ▸ hg)
        · exact hfirst j (by omega) hjk g hg
      · rintro ⟨k, hik, hk, hfirst⟩
        have hki : k ≠ i := by
          rintro rfl
          exact hnone f hk
        exact ⟨k, by omega, hk, fun j hij => hfirst j (by omega)⟩

private theorem pairFault?_nil_eq_some_iff :
    pairFault? [] l.pairs = some f ↔ ∃ i, l.PairFault i f ∧ ∀ j < i, ∀ g, ¬l.PairFault j g := by
  have hseen : ∀ c, c ∈ ([] : List Char) ↔ l.UsedBefore 0 c := fun c =>
    iff_of_false List.not_mem_nil (not_usedBefore_zero c)
  rw [pairFault?_eq_some_iff List.drop_zero hseen]
  simp only [Nat.zero_le, true_and, forall_const]

private theorem pairFault?_nil_eq_none_iff : pairFault? [] l.pairs = none ↔ ∀ j g, ¬l.PairFault j g := by
  constructor
  · intro hnone j
    -- a fault at `j` with none before it would have been found
    induction j using Nat.strongRecOn with
    | _ j ih =>
      intro g hg
      have hfound := pairFault?_nil_eq_some_iff.2 ⟨j, hg, ih⟩
      rw [hnone] at hfound
      cases hfound
  · intro hall
    cases hfound : pairFault? [] l.pairs with
    | none => rfl
    | some f =>
      obtain ⟨i, hi, -⟩ := pairFault?_nil_eq_some_iff.1 hfound
      exact absurd hi (hall i f)

/-! ### Quotes -/

theorem quoteFault?_eq_some_iff :
    l.quoteFault? = some f ↔ ∃ i, l.QuoteFault i f ∧ ∀ j < i, ∀ g, ¬l.QuoteFault j g := by
  have hnot : ∀ {j : Nat} (hj : j < l.quotes.length),
      (∀ g, ¬l.QuoteFault j g) ↔ (!l.bracketChars.contains l.quotes[j]) = true := by
    intro j hj
    rw [Bool.not_eq_true', ← Bool.not_eq_true, List.contains_iff_mem]
    constructor
    · exact fun h hmem => h _ (.bracket (List.getElem?_eq_getElem hj) hmem)
    · rintro h g ⟨hq, hmem⟩
      rw [List.getElem?_eq_getElem hj] at hq
      exact h (Option.some.inj hq ▸ hmem)
  unfold quoteFault?
  rw [Option.map_eq_some_iff]
  constructor
  · rintro ⟨q, hfind, rfl⟩
    obtain ⟨hq, i, hi, rfl, hfirst⟩ := List.find?_eq_some_iff_getElem.1 hfind
    refine ⟨i, .bracket (List.getElem?_eq_getElem hi) (List.contains_iff_mem.1 hq), fun j hj => ?_⟩
    exact (hnot (by omega)).2 (hfirst j hj)
  · rintro ⟨i, ⟨hq, hmem⟩, hfirst⟩
    obtain ⟨hi, rfl⟩ := List.getElem?_eq_some_iff.1 hq
    refine ⟨_, List.find?_eq_some_iff_getElem.2 ⟨List.contains_iff_mem.2 hmem, i, hi, rfl, fun j hj => ?_⟩, rfl⟩
    exact (hnot (by omega)).1 (hfirst j hj)

/-! ### Descriptions -/

theorem fault?_eq_some_iff : l.fault? = some f ↔ l.FirstFault f := by
  unfold fault?
  by_cases htoken : l.commentToken = []
  · rw [if_pos (List.isEmpty_iff.2 htoken)]
    constructor
    · intro h
      cases h
      exact .token htoken
    · rintro (- | ⟨hne, -, -⟩ | ⟨hne, -, -, -⟩)
      · rfl
      · exact absurd htoken hne
      · exact absurd htoken hne
  · rw [if_neg (by rwa [List.isEmpty_iff]), Option.or_eq_some_iff, pairFault?_nil_eq_some_iff,
      pairFault?_nil_eq_none_iff, quoteFault?_eq_some_iff]
    constructor
    · rintro (⟨i, hi, hfirst⟩ | ⟨hnone, i, hi, hfirst⟩)
      · exact .pair htoken hi hfirst
      · exact .quote htoken hnone hi hfirst
    · rintro (hempty | ⟨-, hi, hfirst⟩ | ⟨-, hnone, hi, hfirst⟩)
      · exact absurd hempty htoken
      · exact Or.inl ⟨_, hi, hfirst⟩
      · exact Or.inr ⟨hnone, _, hi, hfirst⟩

private theorem closing?_inj (h : l.fault? = none) {c c' d : Char} (hc : l.closing? c = some d)
    (hc' : l.closing? c' = some d) : c = c' := by
  have hp := (closing?_eq_some_iff h).1 hc
  have hp' := (closing?_eq_some_iff h).1 hc'
  have hsame : (⟨c, d⟩ : BracketPair) = ⟨c', d⟩ := eq_of_shared (c := d) h hp hp' (by simp) (by simp)
  exact congrArg BracketPair.opener hsame

/-- A description is accepted exactly when its token is not empty, all its bracket characters are different and no
quote is one of them; otherwise its first fault is reported.  In an accepted description different openers ask for
different closers, no character both opens and closes, and no quote does either. -/
theorem fault?_exact (l : Language) :
    (l.fault? = none ↔ l.commentToken ≠ [] ∧ l.bracketChars.Nodup ∧ ∀ q ∈ l.quotes, q ∉ l.bracketChars) ∧
      (∀ f, l.fault? = some f ↔ l.FirstFault f) ∧
      (l.fault? = none →
        (∀ c c' d, l.closing? c = some d → l.closing? c' = some d → c = c') ∧
        (∀ c, ¬(l.opens c = true ∧ l.closes c = true)) ∧
        ∀ q, l.isQuote q = true → l.opens q = false ∧ l.closes q = false) := by
  refine ⟨fault?_eq_none_iff l, fun f => fault?_eq_some_iff, fun h => ⟨fun c c' d => closing?_inj h, ?_, ?_⟩⟩
  · rintro c ⟨hopens, hcloses⟩
    rw [opens_of_closes h hcloses] at hopens
    cases hopens
  · intro q hq
    have hbracket : l.isBracket q = false := by
      rw [Bool.eq_false_iff]
      intro hbracket
      rw [isQuote_of_isBracket h hbracket] at hq
      cases hq
    rwa [isBracket, Bool.or_eq_false_iff] at hbracket

/-- The second pair takes a closer of the first; that the third closes itself, and that a quote is a bracket, comes
later. -/
theorem fault?_exact_reused :
    FirstFault { lua with quotes := ['('], pairs := [⟨'(', ')'⟩, ⟨'<', ')'⟩, ⟨'|', '|'⟩] } (.sharedBracket ')') ∧
      (lua.fault? = none ∧ ∀ q, lua.isQuote q = true → lua.opens q = false ∧ lua.closes q = false) :=
  ⟨((fault?_exact _).2.1 _).1 (by decide), fault?_lua, ((fault?_exact lua).2.2 fault?_lua).2.2⟩

end Language

end ScriptLint
