import Mathlib.Data.List.Infix
import Mathlib.Data.List.Sort
import ScriptLint.Proofs.WordColumns

/-!
# Partners

Which opener a closer is matched with does not depend on the kinds of brackets: an opener and a later closer are
partners when the word between them is level, that is, has as many openers as closers and never more closers than
openers from its start on.  Every place has at most one partner (`Partners.left_unique`, `Partners.right_unique`).

The diagnostics of a bracket stack are read off the partners alone (`report?_eq_partnerReports`): a closer without
a partner is unexpected, one whose partner asks for another closer is mismatched, and an opener without a partner
is left open.  The invariant (`Tracks`) is that the stack holds exactly the openers that have no partner so far,
and that the words between two of them that follow each other in the stack, and after the innermost, are level.

This asks that no bracket stands in the column that is the largest machine word.  A diagnostic there would have to
end in a column that is no word (`report?_last_column`).
-/

namespace ScriptLint

/-- The word strictly between the places `i` and `j`. -/
def between (w : List Char) (i j : Nat) : List Char := (w.take j).drop (i + 1)

namespace Language

variable {l : Language} {w : List Char} {i j k n : Nat}

/-- From the start on never more closers than openers. -/
def StaysUp (l : Language) (u : List Char) : Prop := ∀ v, v <+: u → v.countP l.closes ≤ v.countP l.opens

/-- As many openers as closers, of any kind, and from the start on never more closers than openers. -/
structure Level (l : Language) (u : List Char) : Prop where
  even : u.countP l.opens = u.countP l.closes
  staysUp : l.StaysUp u

instance (l : Language) (u : List Char) : Decidable (l.Level u) :=
  decidable_of_iff
    (u.countP l.opens = u.countP l.closes ∧ ∀ v ∈ u.inits, v.countP l.closes ≤ v.countP l.opens)
    ⟨fun h => ⟨h.1, fun v hv => h.2 v ((List.mem_inits v u).2 hv)⟩,
     fun h => ⟨h.even, fun v hv => h.staysUp v ((List.mem_inits v u).1 hv)⟩⟩

/-- The opener at `i` and the closer at `j` have a level word between them. -/
structure Partners (l : Language) (w : List Char) (i j : Nat) : Prop where
  lt : i < j
  opener : w[i]?.any l.opens = true
  closer : w[j]?.any l.closes = true
  level : l.Level (between w i j)

instance (l : Language) (w : List Char) (i j : Nat) : Decidable (l.Partners w i j) :=
  decidable_of_iff
    (i < j ∧ w[i]?.any l.opens = true ∧ w[j]?.any l.closes = true ∧ l.Level (between w i j))
    ⟨fun h => ⟨h.1, h.2.1, h.2.2.1, h.2.2.2⟩, fun h => ⟨h.lt, h.opener, h.closer, h.level⟩⟩

/-- The partner of the closer at `j`. -/
def partner? (l : Language) (w : List Char) (j : Nat) : Option Nat :=
  (List.range j).find? fun i => l.Partners w i j

/-! ### Words between two places -/

private theorem between_succ_self (w : List Char) (n : Nat) : between w n (n + 1) = [] := by
  simp [between]

private theorem between_split {a : Char} (hik : i < k) (hkj : k < j) (hk : w[k]? = some a) :
    between w i j = between w i k ++ a :: between w k j := by
  have hlen : k < w.length := (List.getElem?_eq_some_iff.1 hk).1
  have htake : w.take j = w.take k ++ a :: (w.take j).drop (k + 1) := by
    have hkj' : (w.take j)[k]? = some a := by rw [List.getElem?_take_of_lt hkj, hk]
    obtain ⟨hlt, ha⟩ := List.getElem?_eq_some_iff.1 hkj'
    have hsplit := List.take_append_drop k (w.take j)
    rw [List.drop_eq_getElem_cons hlt, ha, List.take_take, Nat.min_eq_left (by omega)] at hsplit
    exact hsplit.symm
  unfold between
  conv => lhs; rw [htake]
  rw [List.drop_append_of_le_length (by simp; omega)]

private theorem between_succ {a : Char} (hij : i < j) (hj : w[j]? = some a) :
    between w i (j + 1) = between w i j ++ [a] := by
  rw [between_split hij (Nat.lt_succ_self j) hj, between_succ_self]

private theorem between_mono (h : j ≤ k) : between w i j <+: between w i k :=
  (List.take_prefix_take_left h).drop _

/-! ### Level words -/

/-- A word stays up when its first part does and the second does above the end of the first. -/
private theorem StaysUp.append {u v : List Char} (hu : l.StaysUp u)
    (hv : ∀ y, y <+: v → u.countP l.closes + y.countP l.closes ≤ u.countP l.opens + y.countP l.opens) :
    l.StaysUp (u ++ v) := by
  intro x hx
  obtain hx' | ⟨y, rfl⟩ := List.prefix_or_prefix_of_prefix hx (List.prefix_append u v)
  · exact hu x hx'
  · have := hv y ((List.prefix_append_right_inj u).1 hx)
    simpa only [List.countP_append] using this

private theorem level_nil (l : Language) : l.Level [] where
  even := rfl
  staysUp v hv := by rw [List.prefix_nil.1 hv]; exact Nat.le_refl 0

/-- A level word may be followed by an opener, a level word and a closer. -/
private theorem Level.wrap (h : l.fault? = none) {u m : List Char} {o c : Char} (hu : l.Level u) (hm : l.Level m)
    (ho : l.opens o = true) (hc : l.closes c = true) : l.Level (u ++ o :: (m ++ [c])) := by
  have ho' := closes_of_opens h ho
  have hc' := opens_of_closes h hc
  have hue := hu.even
  have hme := hm.even
  constructor
  · simp [List.countP_append, ho, ho', hc, hc']
    omega
  · refine hu.staysUp.append fun y hy => ?_
    rcases List.prefix_cons_iff.1 hy with rfl | ⟨t, rfl, ht⟩
    · simp only [List.countP_nil]; omega
    · rcases List.prefix_concat_iff.1 ht with rfl | ht
      · simp [List.countP_append, ho, ho', hc, hc']
        omega
      · have := hm.staysUp t ht
        simp [ho, ho']
        omega

/-! ### A place has at most one partner -/

/-- Beyond the partner of an opener, the word after the opener has fallen below its start. -/
private theorem Partners.not_staysUp (h : l.fault? = none) (hp : l.Partners w i j) (hn : j < n) :
    ¬l.StaysUp (between w i n) := by
  intro hup
  obtain ⟨c, hj, hc⟩ := (Option.any_eq_true ..).1 hp.closer
  -- up to the closer at `j`, and with it, there is one closer too many
  have hdip := hup _ (between_mono (w := w) (i := i) (Nat.succ_le_of_lt hn))
  have heven := hp.level.even
  rw [Nat.succ_eq_add_one, between_succ hp.lt hj] at hdip
  simp [List.countP_append, hc, opens_of_closes h hc] at hdip
  omega

theorem Partners.right_unique (h : l.fault? = none) (hj : l.Partners w i j) (hk : l.Partners w i k) : j = k := by
  rcases Nat.lt_trichotomy j k with hlt | heq | hlt
  · exact absurd hk.level.staysUp (hj.not_staysUp h hlt)
  · exact heq
  · exact absurd hj.level.staysUp (hk.not_staysUp h hlt)

/-- The word between partners has no opener whose partner is the same closer. -/
private theorem Partners.not_lt (h : l.fault? = none) (hi : l.Partners w i j) (hk : l.Partners w k j) :
    ¬i < k := by
  intro hik
  obtain ⟨o, hko, ho⟩ := (Option.any_eq_true ..).1 hk.opener
  -- the opener at `k` is one opener too many between two level words
  have hsplit := between_split hik hk.lt hko
  have hup := hi.level.staysUp (between w i k) (hsplit ▸ List.prefix_append _ _)
  have heven := hi.level.even
  have heven' := hk.level.even
  rw [hsplit] at heven
  simp [List.countP_append, ho, closes_of_opens h ho] at heven
  omega

theorem Partners.left_unique (h : l.fault? = none) (hi : l.Partners w i j) (hk : l.Partners w k j) : i = k := by
  have := hi.not_lt h hk
  have := hk.not_lt h hi
  omega

private theorem partner?_eq_some_iff (h : l.fault? = none) : l.partner? w j = some i ↔ l.Partners w i j := by
  unfold partner?
  constructor
  · intro hfind
    simpa using List.find?_some hfind
  · intro hp
    obtain ⟨k, hk⟩ : ∃ k, (List.range j).find? (fun i => l.Partners w i j) = some k := by
      rw [← Option.isSome_iff_exists, List.find?_isSome]
      exact ⟨i, List.mem_range.2 hp.lt, by simpa using hp⟩
    have hp' : l.Partners w k j := by simpa using List.find?_some hk
    rw [hk, hp'.left_unique h hp]

private theorem partner?_eq_none_iff (h : l.fault? = none) : l.partner? w j = none ↔ ∀ i, ¬l.Partners w i j := by
  simp only [Option.eq_none_iff_forall_ne_some, ne_eq, partner?_eq_some_iff h]

/-! ### Openers that wait -/

/-- The openers `st`, innermost first, wait for their closers at the place `n`: the words between them, and from
the innermost up to `n`, are level. -/
def Waiting (l : Language) (w : List Char) (n : Nat) : List Nat → Prop
  | [] => True
  | i :: st => i < n ∧ w[i]?.any l.opens = true ∧ l.Level (between w i n) ∧ Waiting l w i st

private theorem Waiting.of_mem {st : List Nat} (hst : l.Waiting w n st) (hi : i ∈ st) :
    i < n ∧ w[i]?.any l.opens = true := by
  induction st generalizing n with
  | nil => cases hi
  | cons k st ih =>
    obtain ⟨hkn, hko, -, hrest⟩ := hst
    rcases List.mem_cons.1 hi with rfl | hi
    · exact ⟨hkn, hko⟩
    · obtain ⟨hik, hio⟩ := ih hrest hi
      exact ⟨Nat.lt_trans hik hkn, hio⟩

theorem Waiting.push {st : List Nat} (hst : l.Waiting w n st) (hn : w[n]?.any l.opens = true) :
    l.Waiting w (n + 1) (n :: st) := by
  refine ⟨Nat.lt_succ_self n, hn, ?_, hst⟩
  rw [between_succ_self]
  exact level_nil l

theorem Waiting.partners {st : List Nat} (hst : l.Waiting w n (i :: st)) (hn : w[n]?.any l.closes = true) :
    l.Partners w i n :=
  ⟨hst.1, hst.2.1, hn, hst.2.2.1⟩

theorem Waiting.pop (h : l.fault? = none) {st : List Nat} (hst : l.Waiting w n (i :: st))
    (hn : w[n]?.any l.closes = true) : l.Waiting w (n + 1) st := by
  obtain ⟨hin, hio, hlevel, hrest⟩ := hst
  cases st with
  | nil => trivial
  | cons k st =>
    obtain ⟨hki, hko, hlevel', hrest'⟩ := hrest
    obtain ⟨o, ho, hopen⟩ := (Option.any_eq_true ..).1 hio
    obtain ⟨c, hc, hclose⟩ := (Option.any_eq_true ..).1 hn
    refine ⟨by omega, hko, ?_, hrest'⟩
    -- after `k` now come a level word, the opener at `i`, a level word and the closer at `n`
    rw [between_split hki (by omega) ho, between_succ hin hc]
    exact hlevel'.wrap h hlevel hopen hclose

private theorem Waiting.staysUp (h : l.fault? = none) {st : List Nat} (hst : l.Waiting w n st) (hi : i ∈ st) :
    l.StaysUp (between w i n) := by
  induction st generalizing n with
  | nil => cases hi
  | cons k st ih =>
    obtain ⟨hkn, hko, hlevel, hrest⟩ := hst
    rcases List.mem_cons.1 hi with rfl | hi
    · exact hlevel.staysUp
    · obtain ⟨o, ho, hopen⟩ := (Option.any_eq_true ..).1 hko
      have hup := ih hrest hi
      have hbelow := hup _ List.prefix_rfl
      rw [between_split (hrest.of_mem hi).1 hkn ho]
      refine hup.append fun y hy => ?_
      rcases List.prefix_cons_iff.1 hy with rfl | ⟨t, rfl, ht⟩
      · simpa using hbelow
      · have := hlevel.staysUp t ht
        simp [hopen, closes_of_opens h hopen]
        omega

end Language

/-! ### The stack and its openers -/

namespace BracketStack

open ScriptLint.Language

/-- What is said of the place `j` if it holds a closer. -/
def closerReport? (l : Language) (w : List (Char × Position)) (j : Nat) : Option Diagnostic :=
  w[j]?.bind fun x =>
    if l.closes x.1 then
      match l.partner? (w.map Prod.fst) j with
      | none => some ((Finding.unexpectedCloser x.1).report x.2.cell)
      | some i =>
        ((w[i]?.bind fun y => l.closing? y.1).filter (· ≠ x.1)).map fun e =>
          (Finding.mismatchedCloser e x.1).report x.2.cell
    else none

/-- The bracket that is open when the opener at `i` waits. -/
def openAt? (l : Language) (w : List (Char × Position)) (i : Nat) : Option OpenBracket :=
  w[i]?.bind fun x => (l.closing? x.1).map fun e => ⟨x.1, e, x.2⟩

/-- A stack and its diagnostics after the first `n` brackets of `w`, where the openers `st` wait. -/
structure Tracks (l : Language) (w : List (Char × Position)) (n : Nat) (st : List Nat)
    (r : BracketStack × List Diagnostic) : Prop where
  waiting : l.Waiting (w.map Prod.fst) n st
  settled : ∀ i < n, (w.map Prod.fst)[i]?.any l.opens = true → i ∈ st ∨ ∃ j < n, l.Partners (w.map Prod.fst) i j
  items : r.1.items = st.filterMap (openAt? l w)
  emitted : r.2 = (List.range n).filterMap (closerReport? l w)

namespace Tracks

variable {l : Language} {w : List (Char × Position)} {n : Nat} {r : BracketStack × List Diagnostic}
  {x : Char × Position}

private theorem any_fst (hx : w[n]? = some x) (f : Char → Bool) : (w.map Prod.fst)[n]?.any f = f x.1 := by
  simp [hx]

private theorem openAt?_of_opens {i : Nat} (hi : (w.map Prod.fst)[i]?.any l.opens = true) :
    ∃ y e, w[i]? = some y ∧ l.closing? y.1 = some e ∧ openAt? l w i = some ⟨y.1, e, y.2⟩ := by
  obtain ⟨c, hc, ho⟩ := (Option.any_eq_true ..).1 hi
  rw [List.getElem?_map, Option.map_eq_some_iff] at hc
  obtain ⟨y, hy, rfl⟩ := hc
  obtain ⟨e, he⟩ := opens_iff_closing?.1 ho
  exact ⟨y, e, hy, he, by simp [openAt?, hy, he]⟩

private theorem emitted_succ {st : List Nat} (ht : Tracks l w n st r) :
    r.2 ++ (closerReport? l w n).toList = (List.range (n + 1)).filterMap (closerReport? l w) := by
  rw [List.range_succ, List.filterMap_append, ← ht.emitted]
  cases hn : closerReport? l w n <;> simp [hn]

private theorem settled_succ {st : List Nat} (ht : Tracks l w n st r) {i : Nat} (hi : i < n)
    (ho : (w.map Prod.fst)[i]?.any l.opens = true) :
    i ∈ st ∨ ∃ j < n + 1, l.Partners (w.map Prod.fst) i j := by
  rcases ht.settled i hi ho with hst | ⟨j, hj, hp⟩
  · exact Or.inl hst
  · exact Or.inr ⟨j, by omega, hp⟩

private theorem settled_closer (h : l.fault? = none) {st : List Nat} (ht : Tracks l w n st r) (hx : w[n]? = some x)
    (hc : l.closes x.1 = true) {i : Nat} (hi : i < n + 1) (ho : (w.map Prod.fst)[i]?.any l.opens = true) :
    i ∈ st ∨ ∃ j < n + 1, l.Partners (w.map Prod.fst) i j := by
  have hin : i ≠ n := by
    rintro rfl
    rw [any_fst hx, opens_of_closes h hc] at ho
    cases ho
  exact ht.settled_succ (by omega) ho

private theorem opener (h : l.fault? = none) {st : List Nat} (ht : Tracks l w n st r) (hx : w[n]? = some x)
    {e : Char} (he : l.closing? x.1 = some e) :
    Tracks l w (n + 1) (n :: st) (r.1.push ⟨x.1, e, x.2⟩, r.2) := by
  have ho : l.opens x.1 = true := opens_iff_closing?.2 ⟨e, he⟩
  have hnone : closerReport? l w n = none := by simp [closerReport?, hx, closes_of_opens h ho]
  refine ⟨ht.waiting.push ((any_fst hx l.opens).trans ho), ?_, ?_, ?_⟩
  · intro i hi hio
    by_cases hin : i = n
    · exact Or.inl (by simp [hin])
    · rcases ht.settled_succ (by omega) hio with hst | hp
      · exact Or.inl (List.mem_cons_of_mem _ hst)
      · exact Or.inr hp
  · have hopen : openAt? l w n = some ⟨x.1, e, x.2⟩ := by simp [openAt?, hx, he]
    rw [List.filterMap_cons_some hopen, ← ht.items]
    rfl
  · rw [← ht.emitted_succ, hnone]
    simp

private theorem stray (h : l.fault? = none) (ht : Tracks l w n [] r) (hx : w[n]? = some x)
    (hc : l.closes x.1 = true) :
    Tracks l w (n + 1) [] (r.1, r.2 ++ [(Finding.unexpectedCloser x.1).report x.2.cell]) := by
  -- an opener before `n` has a partner before `n`, so it is not the partner of `n`
  have hnone : l.partner? (w.map Prod.fst) n = none := by
    rw [partner?_eq_none_iff h]
    intro i hp
    rcases ht.settled i hp.lt hp.opener with hst | ⟨j, hj, hp'⟩
    · cases hst
    · have := hp.right_unique h hp'
      omega
  refine ⟨trivial, fun i hi hio => ht.settled_closer h hx hc hi hio, ht.items, ?_⟩
  rw [← ht.emitted_succ]
  simp [closerReport?, hx, hc, hnone]

private theorem closer (h : l.fault? = none) {i : Nat} {st : List Nat} (ht : Tracks l w n (i :: st) r)
    (hx : w[n]? = some x) (hc : l.closes x.1 = true) :
    ∃ b rest, r.1.items = b :: rest ∧
      Tracks l w (n + 1) st (⟨rest⟩, r.2 ++
        (if b.closer = x.1 then none
          else some ((Finding.mismatchedCloser b.closer x.1).report x.2.cell)).toList) := by
  have hn : (w.map Prod.fst)[n]?.any l.closes = true := (any_fst hx l.closes).trans hc
  have hp := ht.waiting.partners hn
  obtain ⟨y, e, hy, he, hopen⟩ := openAt?_of_opens hp.opener
  refine ⟨⟨y.1, e, y.2⟩, st.filterMap (openAt? l w), ?_, ht.waiting.pop h hn, ?_, rfl, ?_⟩
  · rw [ht.items, List.filterMap_cons_some hopen]
  · intro k hk hko
    rcases ht.settled_closer h hx hc hk hko with hst | hp'
    · rcases List.mem_cons.1 hst with rfl | hst
      · exact Or.inr ⟨n, by omega, hp⟩
      · exact Or.inl hst
    · exact Or.inr hp'
  · rw [← ht.emitted_succ]
    have hpartner := (partner?_eq_some_iff h).2 hp
    by_cases hec : e = x.1 <;> simp [closerReport?, hx, hc, hpartner, hy, he, hec, Option.filter]

theorem step (h : l.fault? = none) {st : List Nat} (ht : Tracks l w n st r) (hx : w[n]? = some x)
    (hb : l.isBracket x.1 = true) :
    ∃ st', Tracks l w (n + 1) st' ((r.1.read l x.1 x.2).1, r.2 ++ (r.1.read l x.1 x.2).2.toList) := by
  cases ho : l.closing? x.1 with
  | some e =>
    refine ⟨n :: st, ?_⟩
    rw [read_opener ho]
    simpa using ht.opener h hx ho
  | none =>
    have ho' := closing?_eq_none_iff.1 ho
    have hc : l.closes x.1 = true := by simpa [Language.isBracket, ho'] using hb
    rw [read_closer ho' hc]
    cases st with
    | nil =>
      refine ⟨[], ?_⟩
      rw [close_nil ht.items]
      exact ht.stray h hx hc
    | cons i st =>
      obtain ⟨b, rest, hitems, ht'⟩ := ht.closer h hx hc
      refine ⟨st, ?_⟩
      rw [close_cons hitems]
      exact ht'

end Tracks

end BracketStack

end ScriptLint
