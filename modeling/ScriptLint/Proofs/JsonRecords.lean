import ScriptLint.Config.Json
import ScriptLint.Diagnostic.Json

/-!
# Reading records back

Configurations and diagnostics that are written as JSON values are read back as they were, and of a configuration
some keys may be missing (`records_read_back`): whatever keys are deleted from the written value, at the level of
the configuration, of its language or of its rules, it is read, and the deleted fields have their defaults while
all others are as they were.  A missing escape character is therefore the default one, and only `null` says that
there is none.

Reading looks fields up by name, so deleting some does not touch the others (`lookup_without`), and a field that is
there is read as its own reader does (`fieldD?_without`).  Nothing is asked of a configuration but that its width
fits into 64 bits.
-/

namespace ScriptLint

namespace Json

/-! ### Fields -/

/-- The object without the keys of a set. -/
def without (gone : String → Bool) : Json → Json
  | .object fields => .object (fields.filter fun f => !gone f.1)
  | j => j

/-- The object with another value for a key. -/
def update (key : String) (change : Json → Json) : Json → Json
  | .object fields => .object (fields.map fun f => if f.1 = key then (f.1, change f.2) else f)
  | j => j

variable {α : Type} {fields : List (String × Json)} {name : String} {j : Json} {a value : α} {read : Json → Option α}

theorem lookup_without (gone : String → Bool) (fields : List (String × Json)) (name : String) :
    (fields.filter fun f => !gone f.1).lookup name = if gone name then none else fields.lookup name := by
  induction fields with
  | nil => simp
  | cons f fields ih =>
    obtain ⟨key, j⟩ := f
    by_cases hname : name = key
    · -- a deleted key may stand again further on, and is deleted there too
      subst hname
      cases hgone : gone name with
      | true => simp [hgone, ih]
      | false => simp [hgone]
    · have hne : (name == key) = false := by simpa using hname
      cases hkey : gone key <;> simp [hkey, List.lookup_cons, hne, ih]

private theorem field?_of_lookup (hfield : fields.lookup name = some j) (hread : read j = some a) :
    field? fields name read = some a := by
  rw [field?, hfield, Option.bind_some, hread]

/-- A field is read as its reader does, or has its default if it has been deleted. -/
theorem fieldD?_without (gone : String → Bool) (hfield : fields.lookup name = some j) (hread : read j = some a) :
    fieldD? (fields.filter fun f => !gone f.1) name value read = some (if gone name then value else a) := by
  rw [fieldD?, lookup_without, hfield]
  cases gone name with
  | true => rfl
  | false => exact hread

private theorem without_nothing (j : Json) : j.without (fun _ => false) = j := by
  cases j <;> simp [without]

/-! ### Values -/

theorem word?_natural {n : Nat} (h : n < UInt64.size) : word? (.natural n) = some n := if_pos h

private theorem char?_char (c : Char) : char? (.char c) = some c := by
  simp [char, char?, Char.toString]

private theorem list?_array {write : α → Json} (h : ∀ a, read (write a) = some a) (xs : List α) :
    list? read (.array (xs.map write)) = some xs := by
  unfold list?
  induction xs with
  | nil => rfl
  | cons x xs ih => simp [h x, ih]

private theorem option?_elim {write : α → Json} (h : ∀ a, read (write a) = some a) (hnull : ∀ a, write a ≠ .null)
    (o : Option α) : option? read (o.elim .null write) = some o := by
  cases o with
  | none => rfl
  | some a =>
    have hsome : option? read (write a) = (read (write a)).map some := by
      unfold option?
      split
      · rename_i hwrite
        exact absurd hwrite (hnull a)
      · rfl
    rw [Option.elim_some, hsome, h a]
    rfl

end Json

/-! ### Diagnostics -/

/-- The position fits into words of 64 bits. -/
def Position.InWords (p : Position) : Prop := p.line < UInt64.size ∧ p.column < UInt64.size

instance (p : Position) : Decidable p.InWords :=
  inferInstanceAs (Decidable (p.line < UInt64.size ∧ p.column < UInt64.size))

private theorem Position.ofJson?_toJson {p : Position} (h : p.InWords) : ofJson? p.toJson = some p := by
  simp only [ofJson?, toJson, Json.fields?, Option.bind_eq_bind, Option.bind_some]
  rw [Json.field?_of_lookup rfl (Json.word?_natural h.1), Json.field?_of_lookup rfl (Json.word?_natural h.2)]
  rfl

private theorem Span.ofJson?_toJson {s : Span} (hstart : s.start.InWords) (hstop : s.stop.InWords) :
    ofJson? s.toJson = some s := by
  simp only [ofJson?, toJson, Json.fields?, Option.bind_eq_bind, Option.bind_some]
  rw [Json.field?_of_lookup rfl (Position.ofJson?_toJson hstart),
    Json.field?_of_lookup rfl (Position.ofJson?_toJson hstop)]
  rfl

private theorem Severity.ofJson?_toJson (s : Severity) : ofJson? s.toJson = some s := by
  cases s <;> rfl

private theorem Code.ofJson?_toJson (c : Code) : ofJson? c.toJson = some c := by
  cases c <;> rfl

private theorem Diagnostic.ofJson?_toJson {d : Diagnostic} (hstart : d.span.start.InWords)
    (hstop : d.span.stop.InWords) : ofJson? d.toJson = some d := by
  simp only [ofJson?, toJson, Json.fields?, Option.bind_eq_bind, Option.bind_some]
  rw [Json.field?_of_lookup rfl (Span.ofJson?_toJson hstart hstop),
    Json.field?_of_lookup rfl (Severity.ofJson?_toJson d.severity),
    Json.field?_of_lookup rfl (Code.ofJson?_toJson d.code), Json.field?_of_lookup (a := d.message) rfl rfl]
  rfl

/-! ### Configurations -/

/-- The description with the defaults for some fields, which are named as they are written. -/
def Language.reset (gone : String → Bool) (l : Language) : Language where
  commentToken := if gone "line_comment" then lua.commentToken else l.commentToken
  quotes := if gone "string_delimiters" then lua.quotes else l.quotes
  escape := if gone "escape" then lua.escape else l.escape
  pairs := if gone "brackets" then lua.pairs else l.pairs

def Rules.reset (gone : String → Bool) (r : Rules) : Rules where
  wantsParameterEnd := if gone "unclosed_parameter_list" then true else r.wantsParameterEnd
  wantsThen := if gone "missing_then" then true else r.wantsThen
  wantsDo := if gone "missing_do" then true else r.wantsDo
  blockWidth := if gone "unclosed_block_width" then 10 else r.blockWidth

/-- Keys to delete from a configuration, at each of its levels. -/
structure Deletion where
  config : String → Bool
  language : String → Bool
  rules : String → Bool

namespace Deletion

/-- Deletes the keys from the value that a configuration is written as. -/
def delete (gone : Deletion) (j : Json) : Json :=
  ((j.update "language" (Json.without gone.language)).update "rules" (Json.without gone.rules)).without gone.config

def nothing : Deletion := ⟨fun _ => false, fun _ => false, fun _ => false⟩

end Deletion

def Config.reset (gone : Deletion) (c : Config) : Config where
  language := if gone.config "language" then .lua else c.language.reset gone.language
  rules := if gone.config "rules" then {} else c.rules.reset gone.rules

private theorem BracketPair.ofJson?_toJson (p : BracketPair) : ofJson? p.toJson = some p := by
  simp only [ofJson?, toJson, Json.fields?, Option.bind_eq_bind, Option.bind_some]
  rw [Json.field?_of_lookup rfl (Json.char?_char p.opener), Json.field?_of_lookup rfl (Json.char?_char p.closer)]
  rfl

private theorem Language.ofJson?_without (l : Language) (gone : String → Bool) :
    ofJson? (l.toJson.without gone) = some (l.reset gone) := by
  have htoken : ((Json.string (String.ofList l.commentToken)).string?.map String.toList) = some l.commentToken := by
    rw [Json.string?, Option.map_some, String.toList_ofList]
  have hquotes := Json.list?_array Json.char?_char l.quotes
  have hescape := Json.option?_elim Json.char?_char (fun _ => nofun) l.escape
  have hpairs := Json.list?_array BracketPair.ofJson?_toJson l.pairs
  simp only [ofJson?, toJson, Json.without, Json.fields?, Option.bind_eq_bind, Option.bind_some]
  rw [Json.fieldD?_without gone rfl htoken, Json.fieldD?_without gone rfl hquotes,
    Json.fieldD?_without gone rfl hescape, Json.fieldD?_without gone rfl hpairs]
  rfl

private theorem Rules.ofJson?_without {r : Rules} (h : r.blockWidth < UInt64.size) (gone : String → Bool) :
    ofJson? (r.toJson.without gone) = some (r.reset gone) := by
  simp only [ofJson?, toJson, Json.without, Json.fields?, Option.bind_eq_bind, Option.bind_some]
  rw [Json.fieldD?_without (a := r.wantsParameterEnd) gone rfl rfl,
    Json.fieldD?_without (a := r.wantsThen) gone rfl rfl, Json.fieldD?_without (a := r.wantsDo) gone rfl rfl,
    Json.fieldD?_without gone rfl (Json.word?_natural h)]
  rfl

private theorem Config.delete_toJson (c : Config) (gone : Deletion) :
    gone.delete c.toJson =
      .object ([("language", c.language.toJson.without gone.language),
        ("rules", c.rules.toJson.without gone.rules)].filter fun f => !gone.config f.1) := by
  simp [Deletion.delete, toJson, Json.update, Json.without]

private theorem Config.ofJson?_delete {c : Config} (h : c.rules.blockWidth < UInt64.size) (gone : Deletion) :
    ofJson? (gone.delete c.toJson) = some (c.reset gone) := by
  rw [delete_toJson]
  simp only [ofJson?, Json.fields?, Option.bind_eq_bind, Option.bind_some]
  rw [Json.fieldD?_without gone.config rfl (c.language.ofJson?_without gone.language),
    Json.fieldD?_without gone.config rfl (Rules.ofJson?_without h gone.rules)]
  rfl

private theorem Config.ofJson?_toJson {c : Config} (h : c.rules.blockWidth < UInt64.size) :
    ofJson? c.toJson = some c := by
  have hnothing : Deletion.nothing.delete c.toJson = c.toJson := by
    rw [delete_toJson]
    simp [Deletion.nothing, Json.without_nothing, toJson]
  rw [← hnothing, ofJson?_delete h]
  rfl

private theorem Language.ofJson?_null (l : Language) :
    ofJson? (l.toJson.update "escape" fun _ => .null) = some { l with escape := none } := by
  have hwritten : (l.toJson.update "escape" fun _ => .null) = toJson { l with escape := none } := by
    simp [Json.update, toJson]
  rw [hwritten, ← Json.without_nothing (toJson _), ofJson?_without]
  rfl

/-- Configurations and diagnostics are read back as they were written.  From a written configuration any keys may
be deleted at any level: then the deleted fields have their defaults, and nothing else changes.  So a deleted
escape character is the default one, and `null` is none. -/
theorem records_read_back (c : Config) (hc : c.rules.blockWidth < UInt64.size) (d : Diagnostic)
    (hstart : d.span.start.InWords) (hstop : d.span.stop.InWords) (gone : Deletion) :
    Config.ofJson? c.toJson = some c ∧
      Diagnostic.ofJson? d.toJson = some d ∧
      Config.ofJson? (gone.delete c.toJson) = some (c.reset gone) ∧
      Language.ofJson? (c.language.toJson.without (· == "escape")) = some { c.language with escape := some '\\' } ∧
      Language.ofJson? (c.language.toJson.update "escape" fun _ => .null) =
        some { c.language with escape := none } := by
  refine ⟨Config.ofJson?_toJson hc, Diagnostic.ofJson?_toJson hstart hstop, Config.ofJson?_delete hc gone, ?_,
    c.language.ofJson?_null⟩
  rw [Language.ofJson?_without]
  simp [Language.reset, Language.lua]

/-- The language could not be used, and the width is the largest one.  The rules are deleted whole, and of the
language the pairs and the escape character, which was none. -/
theorem records_read_back_unusable :
    (18446744073709551615 < UInt64.size ∧ Position.InWords ⟨3, 18446744073709551615⟩) ∧
      Config.ofJson? (Deletion.delete ⟨(· == "rules"), fun key => key == "escape" || key == "brackets", fun _ => true⟩
          (Config.toJson ⟨⟨[], ['(', '\n'], none, [⟨'(', '('⟩]⟩, ⟨true, false, true, 18446744073709551615⟩⟩)) =
        some ⟨⟨[], ['(', '\n'], some '\\', Language.lua.pairs⟩, {}⟩ :=
  ⟨by decide, (records_read_back _ (by decide) (Finding.missingDo.report (Span.inLine 3 0 18446744073709551615))
    (by decide) (by decide) _).2.2.1⟩

end ScriptLint
