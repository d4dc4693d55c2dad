/-!
# Blank characters

The characters that Unicode calls `White_Space`.  Trimming and indentation use exactly this class: control
characters such as U+001C, the zero-width space and the byte order mark are not in it.
-/

namespace ScriptLint

/-- The `White_Space` code points, as closed ranges in increasing order. -/
def blankRanges : List (Nat × Nat) :=
  [(0x09, 0x0D), (0x20, 0x20), (0x85, 0x85), (0xA0, 0xA0), (0x1680, 0x1680), (0x2000, 0x200A),
   (0x2028, 0x2029), (0x202F, 0x202F), (0x205F, 0x205F), (0x3000, 0x3000)]

/-- Is `c` a `White_Space` character? -/
def isBlank (c : Char) : Bool :=
  blankRanges.any fun r => r.1 ≤ c.toNat && c.toNat ≤ r.2

/-- The ranges name 25 code points. -/
example : (blankRanges.map fun r => r.2 + 1 - r.1).sum = 25 := by decide

example : isBlank ' ' = true ∧ isBlank '\u200b' = false ∧ isBlank '\x1c' = false := by decide

end ScriptLint
