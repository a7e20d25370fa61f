import Mathlib.Data.List.Basic

/-!
# Leaving inputs out

A machine answers each input and moves on. Some of its inputs do not touch what a view shows of the
state. They can be left out of a sequence of inputs, and neither the answers that depend on the view
only nor the view at the end are different for it.
-/

namespace Purge

variable {σ ι ο τ : Type*}

/-- The inputs with their answers, one after the other. -/
def answers (step : ι → σ → ο × σ) : σ → List ι → List (ι × ο)
  | _, [] => []
  | s, i :: inputs => (i, (step i s).1) :: answers step (step i s).2 inputs

/-- The state after the inputs. -/
def final (step : ι → σ → ο × σ) : σ → List ι → σ
  | s, [] => s
  | s, i :: inputs => final step (step i s).2 inputs

/-- The view `v` does not see the inputs that are not kept; what it sees of the others it can tell
from what it saw before, and so it can for the answers to the inputs that count. -/
structure Unwinds (step : ι → σ → ο × σ) (v : σ → τ) (keep seen : ι → Bool) : Prop where
  hidden : ∀ s i, keep i = false → v (step i s).2 = v s
  kept : ∀ s s' i, keep i = true → v s = v s' → v (step i s).2 = v (step i s').2
  answered : ∀ s s' i, seen i = true → v s = v s' → (step i s).1 = (step i s').1
  keeps : ∀ i, seen i = true → keep i = true

namespace Unwinds

variable {step : ι → σ → ο × σ} {v : σ → τ} {keep seen : ι → Bool} {s s' : σ}

theorem final_filter (h : Unwinds step v keep seen) (inputs : List ι) (hv : v s = v s') :
    v (final step s inputs) = v (final step s' (inputs.filter keep)) := by
  induction inputs generalizing s s' with
  | nil => exact hv
  | cons i inputs ih =>
    cases hi : keep i with
    | false =>
      rw [List.filter_cons_of_neg (by rw [hi]; exact Bool.false_ne_true)]
      exact ih ((h.hidden s i hi).trans hv)
    | true =>
      rw [List.filter_cons_of_pos hi]
      exact ih (h.kept s s' i hi hv)

theorem answers_filter (h : Unwinds step v keep seen) (inputs : List ι) (hv : v s = v s') :
    (answers step s inputs).filter (fun a => seen a.1)
      = (answers step s' (inputs.filter keep)).filter fun a => seen a.1 := by
  induction inputs generalizing s s' with
  | nil => rfl
  | cons i inputs ih =>
    rw [answers, List.filter_cons]
    cases hi : keep i with
    | false =>
      have hseen : ¬ seen i = true := fun hs => by
        rw [h.keeps i hs] at hi
        cases hi
      rw [List.filter_cons_of_neg (by rw [hi]; exact Bool.false_ne_true), if_neg hseen]
      exact ih ((h.hidden s i hi).trans hv)
    | true =>
      rw [List.filter_cons_of_pos hi, answers, List.filter_cons]
      have hrest := ih (h.kept s s' i hi hv)
      cases hs : seen i with
      | false => exact hrest
      | true =>
        rw [h.answered s s' i hs hv, hrest]

end Unwinds

end Purge
