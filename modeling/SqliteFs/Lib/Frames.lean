import SqliteFs.Lib.Txn

/-!
# What a program leaves alone

A program frames a view `v` of the state if `v` shows the same after it as before, whether it fails
or not.
-/

namespace Txn

universe u v

namespace Prog

variable {σ δ ε α β : Type u} {τ : Type v} {v : σ → τ}

/-- `p` leaves what `v` shows of the state as it is. -/
def Frames (v : σ → τ) (p : Prog σ δ ε α) : Prop := ∀ s, v (p s).state = v s

namespace Frames

lemma pure (a : α) : Frames v (Pure.pure a : Prog σ δ ε α) := fun _ => rfl

lemma query (q : σ → Except ε α) : Frames v (Prog.query q : Prog σ δ ε α) := fun _ => rfl

lemma ensure (c : Prop) [Decidable c] (e : ε) : Frames v (Prog.ensure c e : Prog σ δ ε PUnit) :=
  query _

lemma volatile {g : σ → Except ε α × σ} (hg : ∀ s, v (g s).2 = v s) :
    Frames v (Prog.volatile g : Prog σ δ ε α) := hg

lemma bind {p : Prog σ δ ε α} {f : α → Prog σ δ ε β} (hp : Frames v p) (hf : ∀ a, Frames v (f a)) :
    Frames v (p >>= f) := by
  intro s
  have hs := hp s
  cases h : p s with
  | mk r s' l =>
    rw [h] at hs
    cases r with
    | error e =>
      rw [bind_apply_error h]
      exact hs
    | ok a =>
      rw [bind_apply_ok h]
      exact (hf a s').trans hs

lemma transaction [Durable σ δ] (hv : ∀ s (d : δ), v (setDisk s d) = v s) (b : Body δ ε α) :
    Frames v (Prog.transaction b : Prog σ δ ε α) := by
  intro s
  unfold Prog.transaction
  cases b (disk s) with
  | error e => rfl
  | ok r => exact hv s r.2

lemma ite {c : Prop} [Decidable c] {p p' : Prog σ δ ε α} (h : Frames v p) (h' : Frames v p') :
    Frames v (if c then p else p') := by
  split_ifs
  · exact h
  · exact h'

end Frames

end Prog

end Txn
