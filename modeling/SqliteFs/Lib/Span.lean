import Mathlib.Data.Set.Basic
import Mathlib.Data.Option.Basic
import Mathlib.Order.Lattice
import Mathlib.Algebra.Order.Group.Nat

/-!
# Spans of positions

A span has a first position and, unless it is unbounded, a position just past its last one. This
file says when two spans meet and what is left of a span when another is taken out of it.
-/

/-- The positions from `start` on, up to and without `stop`; without end if there is no `stop`. -/
structure Span where
  start : ℕ
  stop : Option ℕ
  deriving DecidableEq

namespace Span

instance : Membership ℕ Span := ⟨fun s x => s.start ≤ x ∧ ∀ e ∈ s.stop, x < e⟩

variable {s t : Span} {x n : ℕ}

lemma mem_def : x ∈ s ↔ s.start ≤ x ∧ ∀ e ∈ s.stop, x < e := Iff.rfl

instance : Decidable (x ∈ s) := inferInstanceAs (Decidable (_ ∧ _))

/-- The span has a position. -/
def Proper (s : Span) : Prop := ∀ e ∈ s.stop, s.start < e

/-- Two spans have a position in common. -/
def Meets (s t : Span) : Prop := ∃ x, x ∈ s ∧ x ∈ t

lemma Meets.symm (h : s.Meets t) : t.Meets s := by
  obtain ⟨x, hs, ht⟩ := h
  exact ⟨x, ht, hs⟩

/-- Spans meet when each begins before the other ends. -/
theorem meets_iff (hs : s.Proper) (ht : t.Proper) :
    s.Meets t ↔ (∀ e ∈ s.stop, t.start < e) ∧ ∀ e ∈ t.stop, s.start < e := by
  constructor
  · rintro ⟨x, hxs, hxt⟩
    exact ⟨fun e he => hxt.1.trans_lt (hxs.2 e he), fun e he => hxs.1.trans_lt (hxt.2 e he)⟩
  · rintro ⟨h1, h2⟩
    refine ⟨max s.start t.start, ⟨le_max_left _ _, fun e he => ?_⟩, le_max_right _ _,
      fun e he => ?_⟩
    · exact max_lt (hs e he) (h1 e he)
    · exact max_lt (h2 e he) (ht e he)

/-- The part of `s` before position `n`. -/
def before (s : Span) (n : ℕ) : Span := ⟨s.start, some (s.stop.elim n fun e => min e n)⟩

/-- The part of `s` from position `n` on, for an `n` that is not before `s`. -/
def behind (s : Span) (n : ℕ) : Span := ⟨n, s.stop⟩

lemma mem_before : x ∈ s.before n ↔ x ∈ s ∧ x < n := by
  obtain ⟨a, e⟩ := s
  cases e with
  | none => simp [mem_def, before]
  | some e =>
    simp only [mem_def, before, Option.elim_some, Option.mem_some_iff, forall_eq', lt_min_iff]
    exact and_assoc.symm

lemma mem_behind (hn : s.start ≤ n) : x ∈ s.behind n ↔ x ∈ s ∧ n ≤ x := by
  simp only [mem_def, behind]
  constructor
  · rintro ⟨hnx, he⟩
    exact ⟨⟨hn.trans hnx, he⟩, hnx⟩
  · rintro ⟨⟨-, he⟩, hnx⟩
    exact ⟨hnx, he⟩

/-- What is left of a span is before the part taken out, or behind it. -/
lemma mem_and_not_mem : x ∈ s ∧ ¬ x ∈ t ↔
    (x ∈ s ∧ x < t.start) ∨ ∃ e ∈ t.stop, x ∈ s ∧ e ≤ x := by
  simp only [mem_def (s := t), not_and_or, not_forall, not_lt, not_le]
  constructor
  · rintro ⟨hs, h | ⟨e, he, hex⟩⟩
    · exact Or.inl ⟨hs, h⟩
    · exact Or.inr ⟨e, he, hs, hex⟩
  · rintro (⟨hs, h⟩ | ⟨e, he, hs, hex⟩)
    · exact ⟨hs, Or.inl h⟩
    · exact ⟨hs, Or.inr ⟨e, he, hex⟩⟩

end Span
