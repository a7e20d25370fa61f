import Mathlib

/-!
# Terminated items

Items that are written one after the other, each with a terminator behind it, can be told apart again if
none of them has the terminator in it. A NUL ends the text of a string without NULs: UTF-8 has a zero byte
for no other character.
-/

namespace Terminated

variable {α : Type*} {t : α} {items items' : List (List α)}

section Split
variable [BEq α]

/-- What stands before each terminator. -/
def split (t : α) (l : List α) : List (List α) := (l.splitOn t).dropLast

variable [LawfulBEq α]

end Split

end Terminated

namespace Utf8

variable {c : Char} {s s' : List Char}

end Utf8
