import Mathlib.Data.List.Basic

/-!
# Recursive queries

A recursive query starts from some rows and joins to them, round after round, what the rows of the
last round lead to. After finitely many rounds it has collected what is that many steps away.
-/

namespace RecursiveQuery

variable {α : Type*} {next : α → List α} {rows : List α} {x y : α} {k n : ℕ}

/-- The rows of the first `n` rounds. -/
def rounds (next : α → List α) : ℕ → List α → List α
  | 0, _ => []
  | n + 1, rows => rows ++ rounds next n (rows.flatMap next)

/-- From `x`, `k` steps lead to `y`. -/
def Steps (next : α → List α) : ℕ → α → α → Prop
  | 0, x, y => x = y
  | k + 1, x, y => ∃ z ∈ next x, Steps next k z y

/-- The query finds what is less than `n` steps away. -/
theorem mem_rounds : y ∈ rounds next n rows ↔ ∃ k < n, ∃ x ∈ rows, Steps next k x y := by
  induction n generalizing rows with
  | zero =>
    refine iff_of_false List.not_mem_nil ?_
    rintro ⟨k, hk, -⟩
    exact absurd hk (Nat.not_lt_zero k)
  | succ n ih =>
    rw [rounds, List.mem_append, ih]
    constructor
    · rintro (hy | ⟨k, hk, z, hz, hsteps⟩)
      · exact ⟨0, Nat.succ_pos n, y, hy, rfl⟩
      · obtain ⟨x, hx, hxz⟩ := List.mem_flatMap.mp hz
        exact ⟨k + 1, Nat.succ_lt_succ hk, x, hx, z, hxz, hsteps⟩
    · rintro ⟨k, hk, x, hx, hsteps⟩
      cases k with
      | zero =>
        obtain rfl : x = y := hsteps
        exact Or.inl hx
      | succ k =>
        obtain ⟨z, hz, hsteps⟩ := hsteps
        exact Or.inr ⟨k, Nat.lt_of_succ_lt_succ hk, z, List.mem_flatMap.mpr ⟨x, hx, hz⟩, hsteps⟩

lemma rounds_nil (next : α → List α) (n : ℕ) : rounds next n [] = [] := by
  induction n with
  | zero => rfl
  | succ n ih => exact ih

/-- Where nothing is `n` steps away, the query is over after `n` rounds. -/
theorem rounds_add (h : ∀ x ∈ rows, ∀ y, ¬ Steps next n x y) (m : ℕ) :
    rounds next (n + m) rows = rounds next n rows := by
  induction n generalizing rows with
  | zero =>
    have hnil : rows = [] := List.eq_nil_iff_forall_not_mem.mpr fun x hx => h x hx x rfl
    rw [hnil, rounds_nil, rounds_nil]
  | succ n ih =>
    rw [Nat.succ_add, rounds, rounds, ih]
    intro z hz y hsteps
    obtain ⟨x, hx, hxz⟩ := List.mem_flatMap.mp hz
    exact h x hx y ⟨z, hxz, hsteps⟩

end RecursiveQuery
