import ScriptLint.Report

/-!
# What the JSON form tells

The JSON form of reports tells all that they hold: reports with the same form are the same (`jsonForm_inj`).

This is a fact about the layout of JSON values.  A value without decimal numbers is the only such value with its
text, and the text shows where it ends, unless a digit follows (`told_of_isWhole`).  The first character says what
kind of value it is (`kind_of_layout`); within a string every character is read back from its escape
(`unescape_escapeChar`), so that none is taken for the end of the string; and behind each item of an array or an
object stands a comma or a line feed, which say whether there is one more (`sequence_append_inj`).
-/

namespace ScriptLint

namespace Json

/-! ### Strings -/

/-- The characters behind a backslash, with what they stand for. -/
def escapes : List (Char × Char) :=
  [('"', '"'), ('\\', '\\'), ('b', '\x08'), ('f', '\x0c'), ('n', '\n'), ('r', '\r'), ('t', '\t')]

/-- Reads one character of a string back, and gives the rest; at a quote the string is over. -/
def unescape : Text → Option (Char × Text)
  | '\\' :: 'u' :: '0' :: '0' :: a :: b :: rest =>
    ((List.range 32).find? fun n => hexDigit (n / 16) == a && hexDigit n == b).map fun n => (Char.ofNat n, rest)
  | '\\' :: x :: rest => (escapes.lookup x).map fun c => (c, rest)
  | '"' :: _ => none
  | c :: rest => some (c, rest)
  | [] => none

private theorem find_hexDigits : ∀ k < 32,
    ((List.range 32).find? fun n => hexDigit (n / 16) == hexDigit (k / 16) && hexDigit n == hexDigit k) =
      some k := by
  decide

theorem unescape_escapeChar (c : Char) (rest : Text) : unescape (escapeChar c ++ rest) = some (c, rest) := by
  unfold escapeChar
  split
  · subst c; rfl
  split
  · subst c; rfl
  split
  · subst c; rfl
  split
  · subst c; rfl
  split
  · subst c; rfl
  split
  · subst c; rfl
  split
  · subst c; rfl
  split
  · rename_i hc
    simp only [List.cons_append, List.nil_append, unescape, find_hexDigits _ hc, Option.map_some, Char.ofNat_toNat]
  · rename_i hquote hbackslash _ _ _ _ _ _
    rw [List.cons_append, List.nil_append]
    unfold unescape
    split <;> simp_all

private theorem flatMap_escapeChar_inj {s s' r r' : Text}
    (h : s.flatMap escapeChar ++ '"' :: r = s'.flatMap escapeChar ++ '"' :: r') : s = s' ∧ r = r' := by
  induction s generalizing s' with
  | nil =>
    cases s' with
    | nil => simpa using h
    | cons c' s' =>
      have hread := congrArg unescape h
      rw [List.flatMap_cons, List.append_assoc, unescape_escapeChar] at hread
      cases hread
  | cons c s ih =>
    have hread := congrArg unescape h
    cases s' with
    | nil =>
      rw [List.flatMap_cons, List.append_assoc, unescape_escapeChar] at hread
      cases hread
    | cons c' s' =>
      rw [List.flatMap_cons, List.flatMap_cons, List.append_assoc, List.append_assoc, unescape_escapeChar,
        unescape_escapeChar, Option.some.injEq, Prod.mk.injEq] at hread
      obtain ⟨hs, hr⟩ := ih hread.2
      exact ⟨by rw [hread.1, hs], hr⟩

private theorem quote_append_inj {s s' r r' : Text} (h : quote s ++ r = quote s' ++ r') : s = s' ∧ r = r' := by
  simp only [quote, List.cons_append, List.append_assoc, List.nil_append, List.cons.injEq, true_and] at h
  exact flatMap_escapeChar_inj h

/-! ### Numbers -/

/-- No digit follows. -/
def Stops (r : Text) : Prop := r.takeWhile Char.isDigit = []

private theorem toDigits_append_inj {n n' : Nat} {r r' : Text} (hr : Stops r) (hr' : Stops r')
    (h : Nat.toDigits 10 n ++ r = Nat.toDigits 10 n' ++ r') : n = n' ∧ r = r' := by
  have hdigits : ∀ (k : Nat) (s : Text), Stops s →
      (Nat.toDigits 10 k ++ s).takeWhile Char.isDigit = Nat.toDigits 10 k := by
    intro k s hs
    have hall : ∀ c ∈ Nat.toDigits 10 k, c.isDigit = true :=
      fun c hc => Nat.isDigit_of_mem_toDigits (by omega) (by omega) hc
    rw [List.takeWhile_append_of_pos hall, hs, List.append_nil]
  have hsame : Nat.toDigits 10 n = Nat.toDigits 10 n' := by
    rw [← hdigits n r hr, h, hdigits n' r' hr']
  have hvalue : ∀ k : Nat, Nat.ofDigitChars 10 (Nat.toDigits 10 k) 0 = k :=
    fun k => Nat.ofDigitChars_toDigits (by omega) (by omega)
  constructor
  · rw [← hvalue n, hsame, hvalue n']
  · rw [hsame] at h
    exact List.append_cancel_left h

/-! ### Values -/

/-- No decimal numbers occur in the value. -/
inductive IsWhole : Json → Prop
  | null : IsWhole .null
  | bool (b : Bool) : IsWhole (.bool b)
  | natural (n : Nat) : IsWhole (.natural n)
  | string (s : String) : IsWhole (.string s)
  | array {items : List Json} : (∀ j ∈ items, IsWhole j) → IsWhole (.array items)
  | object {fields : List (String × Json)} : (∀ f ∈ fields, IsWhole f.2) → IsWhole (.object fields)

inductive Kind where
  | null | bool | number | string | array | object
  deriving DecidableEq

def kind : Json → Kind
  | .null => .null
  | .bool _ => .bool
  | .natural _ | .decimal .. => .number
  | .string _ => .string
  | .array _ => .array
  | .object _ => .object

/-- The kind of the values whose text starts with the character. -/
def Kind.ofChar (c : Char) : Kind :=
  if c.isDigit then .number
  else if c = '"' then .string
  else if c = '[' then .array
  else if c = '\x7b' then .object
  else if c = 'n' then .null
  else .bool

theorem kind_of_layout {j : Json} (hj : IsWhole j) (level : Nat) (r : Text) :
    (layout level j ++ r).head?.map Kind.ofChar = some j.kind := by
  cases hj with
  | null => rfl
  | bool b => cases b <;> rfl
  | natural n =>
    obtain ⟨c, rest, hdigits⟩ := List.exists_cons_of_ne_nil (Nat.toDigits_ne_nil (n := n) (b := 10))
    have hc : c.isDigit = true :=
      Nat.isDigit_of_mem_toDigits (b := 10) (n := n) (by omega) (by omega) (by simp [hdigits])
    simp [layout, hdigits, Kind.ofChar, hc, kind]
  | string s => rfl
  | @array items _ => cases items <;> simp [layout] <;> rfl
  | @object fields _ => cases fields <;> simp [layout] <;> rfl

private theorem kind_eq_of_layout {j j' : Json} (hj : IsWhole j) (hj' : IsWhole j') {level : Nat} {r r' : Text}
    (h : layout level j ++ r = layout level j' ++ r') : j.kind = j'.kind := by
  have hkind := kind_of_layout hj level r
  rw [h, kind_of_layout hj' level r'] at hkind
  exact (Option.some.inj hkind).symm

/-! ### Arrays and objects -/

/-- Items between brackets, each on its own line. -/
def sequence {α : Type} (level : Nat) (opener closer : Char) (write : α → Text) : List α → Text
  | [] => [opener, closer]
  | a :: rest =>
    opener :: '\n' :: (margin (level + 1) ++ write a ++
      rest.flatMap fun b => ',' :: '\n' :: (margin (level + 1) ++ write b)) ++ '\n' :: margin level ++ [closer]

def fieldText (level : Nat) (f : String × Json) : Text := quote f.1.toList ++ ':' :: ' ' :: layout level f.2

private theorem layout_array (level : Nat) (items : List Json) :
    layout level (.array items) = sequence level '[' ']' (layout (level + 1)) items := by
  have hrest : ∀ (n : Nat) (js : List Json),
      layoutItems n js = js.flatMap fun j => ',' :: '\n' :: (margin n ++ layout n j) := by
    intro n js
    induction js with
    | nil => rfl
    | cons j js ih => simp [layoutItems, ih]
  cases items with
  | nil => rfl
  | cons j rest => simp only [layout, sequence, hrest]

private theorem layout_object (level : Nat) (fields : List (String × Json)) :
    layout level (.object fields) = sequence level '\x7b' '\x7d' (fieldText (level + 1)) fields := by
  have hrest : ∀ (n : Nat) (fs : List (String × Json)),
      layoutFields n fs = fs.flatMap fun f => ',' :: '\n' :: (margin n ++ fieldText n f) := by
    intro n fs
    induction fs with
    | nil => rfl
    | cons f fs ih => simp [layoutFields, fieldText, ih]
  cases fields with
  | nil => rfl
  | cons f rest => simp only [layout, sequence, fieldText, hrest, List.append_assoc]

/-- From the texts of two things and what follows them, it can be told whether they are the same. -/
def Told {α : Type} (write : α → Text) (a b : α) : Prop :=
  ∀ r r' : Text, Stops r → Stops r' → write a ++ r = write b ++ r' → a = b ∧ r = r'

section Sequence

variable {α : Type} {write : α → Text} {xs ys : List α} {r r' : Text}

private theorem stops_rest (m : Text) (xs : List α) (r : Text) :
    Stops ((xs.flatMap fun a => ',' :: '\n' :: (m ++ write a)) ++ '\n' :: r) := by
  cases xs <;> rfl

/-- Behind an item, a comma says that there is one more, and a line feed that there is none. -/
private theorem rest_append_inj (hread : ∀ a ∈ xs, ∀ b ∈ ys, Told write a b) {m : Text}
    (h : (xs.flatMap fun a => ',' :: '\n' :: (m ++ write a)) ++ '\n' :: r =
      (ys.flatMap fun a => ',' :: '\n' :: (m ++ write a)) ++ '\n' :: r') : xs = ys ∧ r = r' := by
  induction xs generalizing ys with
  | nil =>
    cases ys with
    | nil => simpa using h
    | cons b ys => simp at h
  | cons a xs ih =>
    cases ys with
    | nil => simp at h
    | cons b ys =>
      simp only [List.flatMap_cons, List.cons_append, List.append_assoc, List.cons.injEq, true_and,
        List.append_cancel_left_eq] at h
      obtain ⟨hab, hrest⟩ := hread a (by simp) b (by simp) _ _ (stops_rest ..) (stops_rest ..) h
      obtain ⟨hxs, hr⟩ := ih (fun a ha b hb => hread a (by simp [ha]) b (by simp [hb])) hrest
      exact ⟨by rw [hab, hxs], hr⟩

theorem sequence_append_inj (hread : ∀ a ∈ xs, ∀ b ∈ ys, Told write a b) {level : Nat} {opener closer : Char}
    (hcloser : closer ≠ '\n')
    (h : sequence level opener closer write xs ++ r = sequence level opener closer write ys ++ r') :
    xs = ys ∧ r = r' := by
  cases xs with
  | nil =>
    cases ys with
    | nil => simpa [sequence] using h
    | cons b ys => simp [sequence, hcloser] at h
  | cons a xs =>
    cases ys with
    | nil => simp [sequence, Ne.symm hcloser] at h
    | cons b ys =>
      simp only [sequence, List.cons_append, List.append_assoc, List.cons.injEq, true_and, List.nil_append,
        List.append_cancel_left_eq] at h
      obtain ⟨hab, hrest⟩ := hread a (by simp) b (by simp) _ _ (stops_rest ..) (stops_rest ..) h
      obtain ⟨hxs, hr⟩ := rest_append_inj (fun a ha b hb => hread a (by simp [ha]) b (by simp [hb])) hrest
      have hr' := List.append_cancel_left hr
      exact ⟨by rw [hab, hxs], (List.cons.inj hr').2⟩

end Sequence

private theorem told_fieldText {level : Nat} {f g : String × Json} (h : Told (layout level) f.2 g.2) :
    Told (fieldText level) f g := by
  intro r r' hr hr' heq
  simp only [fieldText, List.append_assoc, List.cons_append] at heq
  obtain ⟨hkey, hvalue⟩ := quote_append_inj heq
  simp only [List.cons.injEq, true_and] at hvalue
  obtain ⟨hj, hrest⟩ := h r r' hr hr' hvalue
  exact ⟨Prod.ext (String.toList_inj.1 hkey) hj, hrest⟩

/-! ### Values -/

/-- Induction on the first value; the second is of the same kind, because their texts start alike. -/
theorem told_of_isWhole {j j' : Json} (hj : IsWhole j) (hj' : IsWhole j') (level : Nat) :
    Told (layout level) j j' := by
  induction hj generalizing j' level with
  | null =>
    intro r r' hr hr' h
    have hkind := kind_eq_of_layout .null hj' h
    cases hj' with
    | null => exact ⟨rfl, List.append_cancel_left h⟩
    | _ => cases hkind
  | bool b =>
    intro r r' hr hr' h
    have hkind := kind_eq_of_layout (.bool b) hj' h
    cases hj' with
    | bool b' =>
      cases b <;> cases b'
      · exact ⟨rfl, List.append_cancel_left h⟩
      · simp [layout] at h
      · simp [layout] at h
      · exact ⟨rfl, List.append_cancel_left h⟩
    | _ => cases hkind
  | natural n =>
    intro r r' hr hr' h
    have hkind := kind_eq_of_layout (.natural n) hj' h
    cases hj' with
    | natural n' =>
      simp only [layout] at h
      obtain ⟨hn, hrest⟩ := toDigits_append_inj hr hr' h
      exact ⟨by rw [hn], hrest⟩
    | _ => cases hkind
  | string s =>
    intro r r' hr hr' h
    have hkind := kind_eq_of_layout (.string s) hj' h
    cases hj' with
    | string s' =>
      simp only [layout] at h
      obtain ⟨hs, hrest⟩ := quote_append_inj h
      exact ⟨by rw [String.toList_inj.1 hs], hrest⟩
    | _ => cases hkind
  | @array items hitems ih =>
    intro r r' hr hr' h
    have hkind := kind_eq_of_layout (.array hitems) hj' h
    cases hj' with
    | @array items' hitems' =>
      rw [layout_array, layout_array] at h
      have hread : ∀ a ∈ items, ∀ b ∈ items', Told (layout (level + 1)) a b :=
        fun a ha b hb => ih a ha (hitems' b hb) (level + 1)
      obtain ⟨hsame, hrest⟩ := sequence_append_inj hread (by decide) h
      exact ⟨by rw [hsame], hrest⟩
    | _ => cases hkind
  | @object fields hfields ih =>
    intro r r' hr hr' h
    have hkind := kind_eq_of_layout (.object hfields) hj' h
    cases hj' with
    | @object fields' hfields' =>
      rw [layout_object, layout_object] at h
      have hread : ∀ f ∈ fields, ∀ g ∈ fields', Told (fieldText (level + 1)) f g :=
        fun f hf g hg => told_fieldText (ih f hf (hfields' g hg) (level + 1))
      obtain ⟨hsame, hrest⟩ := sequence_append_inj hread (by decide) h
      exact ⟨by rw [hsame], hrest⟩
    | _ => cases hkind

private theorem isWhole_map {α : Type} {f : α → Json} (h : ∀ a, IsWhole (f a)) (xs : List α) :
    IsWhole (.array (xs.map f)) := by
  apply IsWhole.array
  intro j hj
  obtain ⟨a, -, rfl⟩ := List.mem_map.1 hj
  exact h a

private theorem layout_inj {j j' : Json} (hj : IsWhole j) (hj' : IsWhole j') {level : Nat} {r : Text}
    (hr : Stops r) (h : layout level j ++ r = layout level j' ++ r) : j = j' :=
  (told_of_isWhole hj hj' level r r hr hr h).1

end Json

/-! ### Reports -/

theorem Severity.name_inj {s s' : Severity} (h : s.name = s'.name) : s = s' := by
  revert h
  cases s <;> cases s' <;> decide

private theorem Code.name_inj {c c' : Code} (h : c.name = c'.name) : c = c' := by
  revert h
  cases c <;> cases c' <;> decide

private theorem Position.toJson_inj {p q : Position} (h : p.toJson = q.toJson) : p = q := by
  obtain ⟨line, column⟩ := p
  obtain ⟨line', column'⟩ := q
  simpa [toJson] using h

private theorem Span.toJson_inj {s s' : Span} (h : s.toJson = s'.toJson) : s = s' := by
  obtain ⟨start, stop⟩ := s
  obtain ⟨start', stop'⟩ := s'
  simp only [toJson, Json.object.injEq, List.cons.injEq, Prod.mk.injEq, true_and, and_true] at h
  rw [Position.toJson_inj h.1, Position.toJson_inj h.2]

private theorem Diagnostic.toJson_inj {d d' : Diagnostic} (h : d.toJson = d'.toJson) : d = d' := by
  obtain ⟨span, severity, code, message⟩ := d
  obtain ⟨span', severity', code', message'⟩ := d'
  simp only [toJson, Severity.toJson, Code.toJson, Json.object.injEq, Json.string.injEq, List.cons.injEq,
    Prod.mk.injEq, true_and, and_true] at h
  obtain ⟨hspan, hseverity, hcode, hmessage⟩ := h
  rw [Span.toJson_inj hspan, Severity.name_inj hseverity, Code.name_inj hcode, hmessage]

private theorem Position.isWhole_toJson (p : Position) : p.toJson.IsWhole := by
  apply Json.IsWhole.object
  intro f hf
  simp only [List.mem_cons, List.not_mem_nil, or_false] at hf
  rcases hf with rfl | rfl <;> exact .natural _

private theorem Span.isWhole_toJson (s : Span) : s.toJson.IsWhole := by
  apply Json.IsWhole.object
  intro f hf
  simp only [List.mem_cons, List.not_mem_nil, or_false] at hf
  rcases hf with rfl | rfl <;> exact Position.isWhole_toJson _

private theorem Diagnostic.isWhole_toJson (d : Diagnostic) : d.toJson.IsWhole := by
  apply Json.IsWhole.object
  intro f hf
  simp only [List.mem_cons, List.not_mem_nil, or_false] at hf
  rcases hf with rfl | rfl | rfl | rfl
  · exact d.span.isWhole_toJson
  · exact .string _
  · exact .string _
  · exact .string _

namespace Report

private theorem toJson_inj {r r' : Report} (h : r.toJson = r'.toJson) : r = r' := by
  obtain ⟨path, diagnostics⟩ := r
  obtain ⟨path', diagnostics'⟩ := r'
  simp only [toJson, Json.object.injEq, Json.string.injEq, Json.array.injEq, List.cons.injEq, Prod.mk.injEq, true_and,
    and_true] at h
  rw [h.1, List.map_inj_right (fun _ _ => Diagnostic.toJson_inj) |>.1 h.2]

private theorem isWhole_toJson (r : Report) : r.toJson.IsWhole := by
  apply Json.IsWhole.object
  intro f hf
  simp only [List.mem_cons, List.not_mem_nil, or_false] at hf
  rcases hf with rfl | rfl
  · exact .string _
  · exact Json.isWhole_map Diagnostic.isWhole_toJson _

/-- Two lists of reports have the same JSON form only if they are the same. -/
theorem jsonForm_inj (reports reports' : List Report) :
    jsonForm reports = jsonForm reports' ↔ reports = reports' := by
  constructor
  · intro h
    have htext := String.ofList_injective h
    have hstops : Json.Stops ['\n'] := rfl
    have hjson := Json.layout_inj (Json.isWhole_map isWhole_toJson reports)
      (Json.isWhole_map isWhole_toJson reports')
      hstops htext
    rw [Json.array.injEq] at hjson
    exact (List.map_inj_right fun _ _ => toJson_inj).1 hjson
  · intro h
    rw [h]

end Report

end ScriptLint
