import Mathlib.Data.Nat.Find
import ScriptLint.Line.Mode

/-!
# The grammar of a line

A line is a sequence of segments: single code characters and closed strings, and at its end possibly a string that
is not closed or a comment.  What may stand at a place is said with the places of the line alone, without reading
it from left to right:

* `Language.PlainAt`: a code character, where no comment token stands, and which is no quote;
* `Language.StringAt`: a string, from a quote to the first later place that holds the same quote unescaped;
* `Language.OpenStringAt`: a quote with no such later place;
* `Language.TokenAt`: a comment token, which is not empty.

Every line has exactly one such factorisation (`Factors.exists_factors`, `Factors.unique`), and the scan of the
line yields its code characters (`Scan.run_factors`).  Here `t` is always a line.
-/

namespace ScriptLint

/-! ### What stands at a place -/

namespace Text

variable {t : Text} {i : Nat} {c : Char}

theorem lt_of_char (h : t[i]? = some c) : i < t.length := (List.getElem?_eq_some_iff.1 h).1

theorem drop_of_char (h : t[i]? = some c) : t.drop i = c :: t.drop (i + 1) := by
  obtain ⟨hlt, rfl⟩ := List.getElem?_eq_some_iff.1 h
  exact List.drop_eq_getElem_cons hlt

end Text

namespace Language

/-- The comment token stands at the place `i`.  An empty token stands nowhere. -/
def TokenAt (l : Language) (t : Text) (i : Nat) : Prop := l.commentToken ≠ [] ∧ l.commentToken <+: t.drop i

instance (l : Language) (t : Text) (i : Nat) : Decidable (l.TokenAt t i) :=
  inferInstanceAs (Decidable (l.commentToken ≠ [] ∧ l.commentToken <+: t.drop i))

/-- A character that is code stands at the place `i`. -/
structure PlainAt (l : Language) (t : Text) (i : Nat) (c : Char) : Prop where
  char : t[i]? = some c
  plain : c ∉ l.quotes
  noToken : ¬l.TokenAt t i

/-- A quote that opens a string stands at the place `i`. -/
structure OpensAt (l : Language) (t : Text) (i : Nat) (q : Char) : Prop where
  char : t[i]? = some q
  quote : q ∈ l.quotes
  noToken : ¬l.TokenAt t i

/-- The place `j` holds `q`, and the place before it does not hold the escape character.  This is asked of places
behind an opening quote only, so there is a place before it. -/
structure ClosesAt (l : Language) (t : Text) (q : Char) (j : Nat) : Prop where
  char : t[j]? = some q
  unescaped : ∀ e, l.escape = some e → t[j - 1]? ≠ some e

/-- A string that `q` quotes stands at the places `i` to `j`. -/
structure StringAt (l : Language) (t : Text) (q : Char) (i j : Nat) : Prop where
  opens : l.OpensAt t i q
  lt : i < j
  closes : l.ClosesAt t q j
  first : ∀ k, i < k → k < j → ¬l.ClosesAt t q k

/-- A string that `q` opens stands at the place `i`, and is not closed. -/
structure OpenStringAt (l : Language) (t : Text) (q : Char) (i : Nat) : Prop where
  opens : l.OpensAt t i q
  never : ∀ k, i < k → ¬l.ClosesAt t q k

variable {l : Language} {t : Text} {i j : Nat} {c q : Char}

theorem startsComment_drop_iff : l.startsComment (t.drop i) = true ↔ l.TokenAt t i := by
  simp [startsComment, TokenAt]

theorem TokenAt.lt (h : l.TokenAt t i) : i < t.length := by
  have hlen := h.2.length_le
  have hpos := List.length_pos_iff.2 h.1
  rw [List.length_drop] at hlen
  omega

private theorem startsComment_of_not_tokenAt (hc : t[i]? = some c) (ht : ¬l.TokenAt t i) :
    l.startsComment (c :: t.drop (i + 1)) = false := by
  rw [← Text.drop_of_char hc, Bool.eq_false_iff, ne_eq, startsComment_drop_iff]
  exact ht

theorem PlainAt.lt (h : l.PlainAt t i c) : i < t.length := Text.lt_of_char h.char

theorem OpensAt.lt (h : l.OpensAt t i q) : i < t.length := Text.lt_of_char h.char

private theorem OpensAt.eq {q' : Char} (h : l.OpensAt t i q) (h' : l.OpensAt t i q') : q = q' :=
  Option.some.inj (h.char.symm.trans h'.char)

private theorem PlainAt.not_opensAt (h : l.PlainAt t i c) : ¬l.OpensAt t i q := by
  intro ho
  have hcq : c = q := Option.some.inj (h.char.symm.trans ho.char)
  exact h.plain (hcq ▸ ho.quote)

theorem StringAt.unique {j' : Nat} {q' : Char} (h : l.StringAt t q i j) (h' : l.StringAt t q' i j') : j = j' := by
  obtain rfl := h.opens.eq h'.opens
  rcases Nat.lt_trichotomy j j' with hlt | heq | hlt
  · exact absurd h.closes (h'.first j h.lt hlt)
  · exact heq
  · exact absurd h'.closes (h.first j' h'.lt hlt)

private theorem StringAt.not_openStringAt {q' : Char} (h : l.StringAt t q i j) : ¬l.OpenStringAt t q' i := by
  intro ho
  obtain rfl := h.opens.eq ho.opens
  exact ho.never j h.lt h.closes

/-- A quote opens a string that is closed at its first unescaped repetition, or one that is not closed. -/
theorem OpensAt.string_or_open (h : l.OpensAt t i q) : (∃ j, l.StringAt t q i j) ∨ l.OpenStringAt t q i := by
  classical
  by_cases hex : ∃ j, i < j ∧ l.ClosesAt t q j
  · left
    obtain ⟨hlt, hcloses⟩ := Nat.find_spec hex
    exact ⟨Nat.find hex, h, hlt, hcloses, fun k hik hk hc => Nat.find_min hex hk ⟨hik, hc⟩⟩
  · exact Or.inr ⟨h, fun k hik hc => hex ⟨k, hik, hc⟩⟩

end Language

/-! ### Factorisations -/

/-- A part of a line.  Strings include their quotes; what is open goes to the end of the line. -/
inductive Segment where
  | code (place : Nat)
  | string (start last : Nat)
  | openString (start : Nat)
  | comment (start : Nat)
  deriving DecidableEq

namespace Segment

def start : Segment → Nat
  | code i | string i _ | openString i | comment i => i

/-- The characters of a segment of `t`. -/
def text (t : Text) : Segment → Text
  | code i => (t.drop i).take 1
  | string i j => (t.drop i).take (j + 1 - i)
  | openString i | comment i => t.drop i

/-- The character of a code segment, with its column. -/
def code? (t : Text) : Segment → Option (Nat × Char)
  | code i => t[i]?.map fun c => (i, c)
  | _ => none

end Segment

/-- The segments make up the line from the place `i` on. -/
inductive Factors (l : Language) (t : Text) : Nat → List Segment → Prop
  | done : Factors l t t.length []
  | code {i : Nat} {c : Char} {segments : List Segment} :
      l.PlainAt t i c → Factors l t (i + 1) segments → Factors l t i (.code i :: segments)
  | string {i j : Nat} {q : Char} {segments : List Segment} :
      l.StringAt t q i j → Factors l t (j + 1) segments → Factors l t i (.string i j :: segments)
  | openString {i : Nat} {q : Char} : l.OpenStringAt t q i → Factors l t i [.openString i]
  | comment {i : Nat} : l.TokenAt t i → Factors l t i [.comment i]

namespace Factors

variable {l : Language} {t : Text} {i : Nat} {segments : List Segment}

/-- From every place on there is a factorisation: by induction on the number of characters that are left. -/
theorem exists_factors (l : Language) (t : Text) (n : Nat) :
    ∀ i, i + n = t.length → ∃ segments, Factors l t i segments := by
  induction n using Nat.strong_induction_on with
  | _ n ih =>
    intro i hi
    by_cases hn : n = 0
    · obtain rfl : i = t.length := by omega
      exact ⟨[], .done⟩
    have hchar : t[i]? = some t[i] := List.getElem?_eq_getElem (by omega)
    by_cases htoken : l.TokenAt t i
    · exact ⟨_, .comment htoken⟩
    by_cases hquote : t[i] ∈ l.quotes
    · rcases Language.OpensAt.string_or_open ⟨hchar, hquote, htoken⟩ with ⟨j, hj⟩ | hopen
      · have hlt := hj.lt
        have hjt := Text.lt_of_char hj.closes.char
        obtain ⟨segments, hrest⟩ := ih (t.length - (j + 1)) (by omega) (j + 1) (by omega)
        exact ⟨_, .string hj hrest⟩
      · exact ⟨_, .openString hopen⟩
    · obtain ⟨segments, hrest⟩ := ih (n - 1) (by omega) (i + 1) (by omega)
      exact ⟨_, .code ⟨hchar, hquote, htoken⟩ hrest⟩

/-- What stands at a place fixes the segment there and where the next one starts. -/
theorem unique {other : List Segment} (h : Factors l t i segments) (h' : Factors l t i other) :
    segments = other := by
  induction h generalizing other with
  | done =>
    cases h' with
    | done => rfl
    | code hp => exact absurd hp.lt (Nat.lt_irrefl _)
    | string hs => exact absurd hs.opens.lt (Nat.lt_irrefl _)
    | openString ho => exact absurd ho.opens.lt (Nat.lt_irrefl _)
    | comment ht => exact absurd ht.lt (Nat.lt_irrefl _)
  | code hp _ ih =>
    cases h' with
    | done => exact absurd hp.lt (Nat.lt_irrefl _)
    | code _ hrest => rw [ih hrest]
    | string hs => exact absurd hs.opens hp.not_opensAt
    | openString ho => exact absurd ho.opens hp.not_opensAt
    | comment ht => exact absurd ht hp.noToken
  | string hs _ ih =>
    cases h' with
    | done => exact absurd hs.opens.lt (Nat.lt_irrefl _)
    | code hp => exact absurd hs.opens hp.not_opensAt
    | string hs' hrest =>
      obtain rfl := hs.unique hs'
      rw [ih hrest]
    | openString ho => exact absurd ho hs.not_openStringAt
    | comment ht => exact absurd ht hs.opens.noToken
  | openString ho =>
    cases h' with
    | done => exact absurd ho.opens.lt (Nat.lt_irrefl _)
    | code hp => exact absurd ho.opens hp.not_opensAt
    | string hs => exact absurd ho hs.not_openStringAt
    | openString => rfl
    | comment ht => exact absurd ht ho.opens.noToken
  | comment ht =>
    cases h' with
    | done => exact absurd ht.lt (Nat.lt_irrefl _)
    | code hp => exact absurd ht hp.noToken
    | string hs => exact absurd ht hs.opens.noToken
    | openString ho => exact absurd ht ho.opens.noToken
    | comment => rfl

/-- The segments are the line, cut into pieces. -/
theorem flatMap_text (h : Factors l t i segments) : segments.flatMap (Segment.text t) = t.drop i := by
  have hcut : ∀ a b, a ≤ b → (t.drop a).take (b - a) ++ t.drop b = t.drop a := by
    intro a b hab
    rw [show t.drop b = (t.drop a).drop (b - a) by rw [List.drop_drop]; congr 1; omega, List.take_append_drop]
  induction h with
  | done => simp
  | @code i c segments _ _ ih =>
    rw [List.flatMap_cons, ih, ← hcut i (i + 1) (by omega)]
    simp [Segment.text]
  | @string i j q segments hs _ ih =>
    have := hs.lt
    rw [List.flatMap_cons, ih, ← hcut i (j + 1) (by omega)]
    rfl
  | openString => simp [Segment.text]
  | comment => simp [Segment.text]

theorem le_start (h : Factors l t i segments) {s : Segment} (hs : s ∈ segments) : i ≤ s.start := by
  induction h with
  | done => cases hs
  | code _ _ ih =>
    rcases List.mem_cons.1 hs with rfl | hs
    · exact Nat.le_refl _
    · have := ih hs
      omega
  | string hstr _ ih =>
    rcases List.mem_cons.1 hs with rfl | hs
    · exact Nat.le_refl _
    · have := ih hs
      have := hstr.lt
      omega
  | openString => rw [List.mem_singleton.1 hs]; exact Nat.le_refl _
  | comment => rw [List.mem_singleton.1 hs]; exact Nat.le_refl _

private theorem le_column (h : Factors l t i segments) {x : Nat × Char}
    (hx : x ∈ segments.filterMap (Segment.code? t)) : i ≤ x.1 := by
  obtain ⟨s, hs, hcode⟩ := List.mem_filterMap.1 hx
  have hle := h.le_start hs
  cases s with
  | code k =>
    obtain ⟨c, -, rfl⟩ := Option.map_eq_some_iff.1 hcode
    exact hle
  | string | openString | comment => cases hcode

theorem pairwise_columns (h : Factors l t i segments) :
    (segments.filterMap (Segment.code? t)).Pairwise fun x y => x.1 < y.1 := by
  induction h with
  | done => exact List.Pairwise.nil
  | @code i c segments hp hrest ih =>
    have hcode : Segment.code? t (.code i) = some (i, c) := by simp [Segment.code?, hp.char]
    rw [List.filterMap_cons_some hcode]
    exact List.Pairwise.cons (fun x hx => hrest.le_column hx) ih
  | string _ _ ih => rwa [List.filterMap_cons_none rfl]
  | openString | comment => exact List.Pairwise.nil

end Factors

/-! ### The scan, segment by segment -/

namespace Scan

variable {l : Language} {t : Text} {i j : Nat} {c q : Char}

/-- Outside of strings the character before does not matter. -/
theorem run_code_before (l : Language) (i : Nat) (b b' : Option Char) (s : Text) :
    run l .code i b s = run l .code i b' s := by
  cases s <;> rfl

theorem read_plain (h : l.PlainAt t i c) (b : Option Char) :
    Mode.read .code l b c (t.drop (i + 1)) = ⟨.code, 1, .code⟩ := by
  have htoken := Language.startsComment_of_not_tokenAt h.char h.noToken
  have hquote : l.isQuote c = false := by simpa [Language.isQuote] using h.plain
  simp [Mode.read, Mode.readPlain, Mode.quote?, htoken, hquote]

theorem run_plain (h : l.PlainAt t i c) (b : Option Char) :
    run l .code i b (t.drop i) =
      ⟨(i, c) :: (run l .code (i + 1) none (t.drop (i + 1))).code,
       (run l .code (i + 1) none (t.drop (i + 1))).final⟩ := by
  rw [Text.drop_of_char h.char, run_code_before l (i + 1) none (some c), run, read_plain h]

theorem run_comment (h : l.TokenAt t i) (b : Option Char) : run l .code i b (t.drop i) = ⟨[], .comment none⟩ := by
  obtain ⟨c, hchar⟩ : ∃ c, t[i]? = some c := ⟨_, List.getElem?_eq_getElem h.lt⟩
  have htoken := Language.startsComment_drop_iff.2 h
  rw [Text.drop_of_char hchar] at htoken ⊢
  simp [run, Mode.read, Mode.quote?, htoken]

private theorem run_opens (h : l.OpensAt t i q) (b : Option Char) :
    run l .code i b (t.drop i) = run l (.string q) (i + 1) (some q) (t.drop (i + 1)) := by
  have htoken := Language.startsComment_of_not_tokenAt h.char h.noToken
  have hquote : l.isQuote q = true := by simpa [Language.isQuote] using h.quote
  rw [Text.drop_of_char h.char]
  simp [run, Mode.read, Mode.readPlain, Mode.quote?, htoken, hquote]

/-- A character of a string ends it exactly where the string is closed. -/
theorem endsString_iff {b : Char} (hb : t[i]? = some b) (hc : t[i + 1]? = some c) :
    Mode.endsString l q (some b) c = true ↔ l.ClosesAt t q (i + 1) := by
  simp only [Mode.endsString, Option.any_some, Language.isEscapeChar, Bool.and_eq_true, beq_iff_eq,
    Bool.not_eq_true', beq_eq_false_iff_ne]
  constructor
  · rintro ⟨rfl, hne⟩
    refine ⟨hc, fun e he hbe => hne ?_⟩
    rw [Nat.add_sub_cancel, hb] at hbe
    rw [he, hbe]
  · rintro ⟨hq, hne⟩
    refine ⟨Option.some.inj (hc.symm.trans hq), fun he => hne b he ?_⟩
    rw [Nat.add_sub_cancel, hb]

private theorem run_string_close {b : Char} (hb : t[i]? = some b) (hc : l.ClosesAt t q (i + 1)) :
    run l (.string q) (i + 1) (some b) (t.drop (i + 1)) = run l .code (i + 2) none (t.drop (i + 2)) := by
  have hends := (endsString_iff hb hc.char).2 hc
  rw [Text.drop_of_char hc.char, run_code_before l (i + 2) none (some q)]
  simp [run, Mode.read, Mode.readPlain, Mode.quote?, hends]

private theorem run_string_stay {b : Char} (hb : t[i]? = some b) (hc : t[i + 1]? = some c)
    (hn : ¬l.ClosesAt t q (i + 1)) :
    run l (.string q) (i + 1) (some b) (t.drop (i + 1)) = run l (.string q) (i + 2) (some c) (t.drop (i + 2)) := by
  have hends : Mode.endsString l q (some b) c = false := by
    rw [Bool.eq_false_iff, ne_eq, endsString_iff hb hc]
    exact hn
  rw [Text.drop_of_char hc]
  simp [run, Mode.read, Mode.readPlain, Mode.quote?, hends]

/-- Within a string the scan goes to the first place where it is closed: by induction on the places up to there. -/
private theorem run_to_close (hc : l.ClosesAt t q j) (n : Nat) :
    ∀ (i : Nat) (b : Char), i + n + 1 = j → t[i]? = some b → (∀ k, i < k → k < j → ¬l.ClosesAt t q k) →
      run l (.string q) (i + 1) (some b) (t.drop (i + 1)) = run l .code (j + 1) none (t.drop (j + 1)) := by
  induction n with
  | zero =>
    rintro i b rfl hb -
    exact run_string_close hb hc
  | succ n ih =>
    intro i b hij hb hfirst
    have hlt := Text.lt_of_char hc.char
    have hchar : t[i + 1]? = some t[i + 1] := List.getElem?_eq_getElem (by omega)
    rw [run_string_stay hb hchar (hfirst (i + 1) (by omega) (by omega))]
    exact ih (i + 1) _ (by omega) hchar fun k hik hkj => hfirst k (by omega) hkj

/-- Within a string that is not closed the scan goes to the end of the line. -/
private theorem run_to_end (n : Nat) :
    ∀ (i : Nat) (b : Char), i + n + 1 = t.length → t[i]? = some b → (∀ k, i < k → ¬l.ClosesAt t q k) →
      run l (.string q) (i + 1) (some b) (t.drop (i + 1)) = ⟨[], .string q⟩ := by
  induction n with
  | zero =>
    intro i b hi hb _
    rw [List.drop_eq_nil_of_le (by omega)]
    rfl
  | succ n ih =>
    intro i b hi hb hnever
    have hchar : t[i + 1]? = some t[i + 1] := List.getElem?_eq_getElem (by omega)
    rw [run_string_stay hb hchar (hnever (i + 1) (by omega))]
    exact ih (i + 1) _ (by omega) hchar fun k hik => hnever k (by omega)

theorem run_string (h : l.StringAt t q i j) (b : Option Char) :
    run l .code i b (t.drop i) = run l .code (j + 1) none (t.drop (j + 1)) := by
  have hlt := h.lt
  rw [run_opens h.opens]
  exact run_to_close h.closes (j - i - 1) i q (by omega) h.opens.char h.first

theorem run_openString (h : l.OpenStringAt t q i) (b : Option Char) :
    run l .code i b (t.drop i) = ⟨[], .string q⟩ := by
  have hlt := h.opens.lt
  rw [run_opens h.opens]
  exact run_to_end (t.length - i - 1) i q (by omega) h.opens.char h.never

/-- The mode at the end of a line with the given segments. -/
def endMode (t : Text) (segments : List Segment) : Mode :=
  match segments.getLast? with
  | some (.comment _) => .comment none
  | some (.openString i) => (t[i]?.map Mode.string).getD .code
  | _ => .code

/-- The scan from a place on yields the code segments from there on. -/
theorem run_factors {segments : List Segment} (h : Factors l t i segments) (b : Option Char) :
    run l .code i b (t.drop i) = ⟨segments.filterMap (Segment.code? t), endMode t segments⟩ := by
  have hend : ∀ (s : Segment) (rest : List Segment), endMode t [s] = .code →
      endMode t (s :: rest) = endMode t rest := by
    intro s rest hs
    cases rest with
    | nil => exact hs
    | cons => simp [endMode]
  induction h generalizing b with
  | done => simp [run, endMode]
  | @code i c segments hp _ ih =>
    have hcode : Segment.code? t (.code i) = some (i, c) := by simp [Segment.code?, hp.char]
    rw [run_plain hp, ih none, List.filterMap_cons_some hcode, hend _ _ rfl]
  | @string i j q segments hs _ ih =>
    rw [run_string hs, ih none, List.filterMap_cons_none rfl, hend _ _ rfl]
  | @openString i q ho =>
    rw [run_openString ho]
    simp [endMode, Segment.code?, ho.opens.char]
  | @comment i ht =>
    rw [run_comment ht]
    simp [endMode, Segment.code?]

/-! ### The scan by index -/

/-- Within the line a reading by index has an answer. -/
theorem readAt_of_char (m : Mode) (h : t[i]? = some c) :
    m.readAt l t i = some (m.read l (t.take i).getLast? c (t.drop (i + 1))) := by
  simp only [Mode.readAt, Text.drop_of_char h]

/-- Scans a line by looking at one index after the other.  It has no answer as soon as one of its readings has
none, that is, where it looks beyond the line. -/
def walk (l : Language) (t : Text) (m : Mode) (index : Nat) : Option Scan :=
  if index < t.length then
    if m.inComment then some ⟨[], m⟩
    else do
      let r ← m.readAt l t index
      let rest ← walk l t r.mode (index + max r.length 1)
      match r.role with
      | .code => do
        let c ← t[index]?
        return ⟨(index, c) :: rest.code, rest.final⟩
      | _ => return rest
  else some ⟨[], m⟩
termination_by t.length - index

private theorem walk_inComment {m : Mode} (hm : m.inComment = true) (l : Language) (t : Text) (index : Nat) :
    walk l t m index = some ⟨[], m⟩ := by
  unfold walk
  simp [hm]

/-- Within a comment a token is taken whole, but it starts no other comment. -/
theorem read_inComment {m : Mode} (hm : m.inComment = true) (l : Language) (b : Option Char) (c : Char)
    (s : Text) : (m.read l b c s).role = .comment ∧ (m.read l b c s).mode = m := by
  cases m with
  | code | string => cases hm
  | comment q =>
    unfold Mode.read
    split
    · next htoken =>
      obtain ⟨hq, -⟩ := Bool.and_eq_true_iff.1 htoken
      have hnone : q = none := Option.isNone_iff_eq_none.1 hq
      exact ⟨rfl, by rw [hnone]⟩
    · exact ⟨rfl, rfl⟩

private theorem run_inComment {m : Mode} (hm : m.inComment = true) (l : Language) (i : Nat) (b : Option Char)
    (s : Text) : run l m i b s = ⟨[], m⟩ := by
  cases s with
  | nil => rfl
  | cons c s =>
    obtain ⟨hrole, hmode⟩ := read_inComment hm l b c s
    simp only [run, hrole, hmode]

/-- A reading starts or continues a comment, or takes one character. -/
private theorem read_cases (m : Mode) (l : Language) (b : Option Char) (c : Char) (s : Text) :
    ((m.read l b c s).role = .comment ∧ (m.read l b c s).mode.inComment = true) ∨
      ((m.read l b c s).role ≠ .comment ∧ (m.read l b c s).length = 1) := by
  unfold Mode.read
  split
  · exact Or.inl ⟨rfl, rfl⟩
  · cases m with
    | code =>
      right
      unfold Mode.readPlain
      by_cases hq : l.isQuote c = true <;> simp [hq]
    | string q => exact Or.inr ⟨nofun, rfl⟩
    | comment q => exact Or.inl ⟨rfl, rfl⟩

/-- The scan by index always has an answer, which is the scan. -/
theorem walk_eq_run (l : Language) (t : Text) (n : Nat) :
    ∀ (i : Nat) (m : Mode), i + n = t.length →
      walk l t m i = some (run l m i (t.take i).getLast? (t.drop i)) := by
  induction n with
  | zero =>
    intro i m hi
    rw [List.drop_eq_nil_of_le (by omega), walk, if_neg (by omega)]
    rfl
  | succ n ih =>
    intro i m hi
    obtain ⟨c, hchar⟩ : ∃ c, t[i]? = some c := ⟨_, List.getElem?_eq_getElem (by omega)⟩
    by_cases hm : m.inComment = true
    · rw [walk_inComment hm, run_inComment hm]
    have hread := readAt_of_char (l := l) m hchar
    have hbefore : (t.take (i + 1)).getLast? = some c := by
      rw [List.take_add_one, hchar]
      simp
    rw [walk, if_pos (by omega), if_neg hm, hread, Text.drop_of_char hchar, run]
    simp only [Option.bind_eq_bind, Option.bind_some, hchar]
    rcases read_cases m l (t.take i).getLast? c (t.drop (i + 1)) with ⟨hrole, hmode⟩ | ⟨hrole, hlength⟩
    · simp only [walk_inComment hmode, hrole]
      rfl
    · -- one character is taken, and the rest is shorter
      rw [hlength, Nat.max_self, ih (i + 1) _ (by omega), hbefore]
      cases h : (m.read l (t.take i).getLast? c (t.drop (i + 1))).role with
      | comment => exact absurd h hrole
      | code | string => rfl

/-! ### Lines -/

private theorem inComment_endMode_iff (t : Text) (segments : List Segment) :
    (endMode t segments).inComment = true ↔ ∃ i, segments.getLast? = some (.comment i) := by
  unfold endMode
  cases segments.getLast? with
  | none => simp [Mode.inComment]
  | some s =>
    cases s with
    | comment i => simp [Mode.inComment]
    | openString i => cases h : t[i]? <;> simp [Mode.inComment, h]
    | code | string => simp [Mode.inComment]

private theorem quote?_endMode_iff (t : Text) (segments : List Segment) (q : Char) :
    (endMode t segments).quote? = some q ↔
      ∃ i, segments.getLast? = some (.openString i) ∧ t[i]? = some q := by
  unfold endMode
  cases segments.getLast? with
  | none => simp [Mode.quote?]
  | some s =>
    cases s with
    | openString i => cases h : t[i]? <;> simp [Mode.quote?, h]
    | code | string | comment => simp [Mode.quote?]

/-- Every line has exactly one factorisation, whose segments are the line cut into pieces.  The scan of the line
yields the characters of its code segments in the order of their columns, and can be made by index without ever
looking beyond the line.  It ends in a comment exactly when the last segment is a comment, and in a string exactly
when the last segment is a string that is not closed. -/
theorem ofLine_factors (l : Language) (t : Text) :
    ∃ segments, (∀ other, Factors l t 0 other ↔ other = segments) ∧
      segments.flatMap (Segment.text t) = t ∧
      (ofLine l t).code = segments.filterMap (Segment.code? t) ∧
      ((ofLine l t).code.Pairwise fun x y => x.1 < y.1) ∧
      walk l t .code 0 = some (ofLine l t) ∧
      ((ofLine l t).final.inComment = true ↔ ∃ i, segments.getLast? = some (.comment i)) ∧
      ∀ q, (ofLine l t).final.quote? = some q ↔
        ∃ i, segments.getLast? = some (.openString i) ∧ t[i]? = some q := by
  obtain ⟨segments, h⟩ := Factors.exists_factors l t t.length 0 (Nat.zero_add _)
  have hscan : ofLine l t = ⟨segments.filterMap (Segment.code? t), endMode t segments⟩ := run_factors h none
  refine ⟨segments, fun other => ⟨fun h' => h'.unique h, fun heq => heq ▸ h⟩, h.flatMap_text, ?_, ?_, ?_, ?_, ?_⟩
  · rw [hscan]
  · rw [hscan]
    exact h.pairwise_columns
  · exact walk_eq_run l t t.length 0 .code (Nat.zero_add _)
  · rw [hscan]
    exact inComment_endMode_iff t segments
  · intro q
    rw [hscan]
    exact quote?_endMode_iff t segments q

end Scan

end ScriptLint
