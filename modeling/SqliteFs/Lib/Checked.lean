import Mathlib.Data.Option.Basic
import Mathlib.Algebra.Order.Group.Nat

/-!
# Checked arithmetic

The operations of unsigned integers of 64 bits in a build that checks them: where the exact result
is out of range there is none. The same for slices, and for casts that would change a sign.
-/

namespace Checked

/-- The largest value plus one. -/
def bound : ℕ := 2 ^ 64

def add (a b : ℕ) : Option ℕ := if a + b < bound then some (a + b) else none

def sub (a b : ℕ) : Option ℕ := if b ≤ a then some (a - b) else none

def mul (a b : ℕ) : Option ℕ := if a * b < bound then some (a * b) else none

def div (a b : ℕ) : Option ℕ := if b = 0 then none else some (a / b)

/-- As a signed integer, if that is not negative. -/
def toSigned (a : ℕ) : Option ℤ := if a < 2 ^ 63 then some a else none

/-- What lies from `a` on before `b`. -/
def slice {α : Type} (l : List α) (a b : ℕ) : Option (List α) :=
  if a ≤ b ∧ b ≤ l.length then some ((l.drop a).take (b - a)) else none

variable {a b c : ℕ}

lemma add_of_lt (h : a + b < bound) : add a b = some (a + b) := if_pos h

lemma sub_of_le (h : b ≤ a) : sub a b = some (a - b) := if_pos h

lemma mul_of_lt (h : a * b < bound) : mul a b = some (a * b) := if_pos h

lemma div_of_pos (h : 0 < b) : div a b = some (a / b) := if_neg h.ne'

lemma toSigned_of_lt (h : a < 2 ^ 63) : toSigned a = some (a : ℤ) := if_pos h

lemma slice_of_le {α : Type} {l : List α} (h : a ≤ b) (hb : b ≤ l.length) :
    slice l a b = some ((l.drop a).take (b - a)) :=
  if_pos ⟨h, hb⟩

@[simp] lemma add_eq_some : add a b = some c ↔ a + b < bound ∧ a + b = c := by
  unfold add
  split_ifs with h <;> simp [h]

@[simp] lemma sub_eq_some : sub a b = some c ↔ b ≤ a ∧ a - b = c := by
  unfold sub
  split_ifs with h <;> simp [h]

@[simp] lemma mul_eq_some : mul a b = some c ↔ a * b < bound ∧ a * b = c := by
  unfold mul
  split_ifs with h <;> simp [h]

@[simp] lemma div_eq_some : div a b = some c ↔ 0 < b ∧ a / b = c := by
  unfold div
  split_ifs with h
  · simp [h]
  · simp [Nat.pos_of_ne_zero h]

@[simp] lemma toSigned_eq_some {n : ℤ} : toSigned a = some n ↔ a < 2 ^ 63 ∧ (a : ℤ) = n := by
  unfold toSigned
  split_ifs with h
  · rw [Option.some_inj, and_iff_right h]
  · exact iff_of_false id fun hn => h hn.1

@[simp] lemma slice_eq_some {α : Type} {l l' : List α} :
    slice l a b = some l' ↔ (a ≤ b ∧ b ≤ l.length) ∧ (l.drop a).take (b - a) = l' := by
  unfold slice
  split_ifs with h
  · rw [Option.some_inj, and_iff_right h]
  · exact iff_of_false id fun hn => h hn.1

end Checked
