import SqliteFs.Lib.Txn

/-!
# The statements that a program issues

A program changes its disk by statements only. Where the statements it may issue are known, whatever
each of them keeps is kept by the whole program, and whatever relates the disks before and after
each of them relates the disks before and after the program.

`does i d d'` says that the statement `i` turns `d` into `d'`. A set `A` of statements bounds what
a body or a program issues.
-/

namespace Txn

universe u v

variable {σ δ ε α β : Type u} {ι : Type v} {does : ι → δ → δ → Prop} {A B : ι → Prop}

/-- Statements in `A` lead from one disk to the other. -/
inductive Writes (does : ι → δ → δ → Prop) (A : ι → Prop) : δ → δ → Prop
  | refl {d : δ} : Writes does A d d
  | head {i : ι} {d d' d'' : δ} : A i → does i d d' → Writes does A d' d'' → Writes does A d d''

namespace Writes

variable {d d' d'' : δ}

lemma single {i : ι} (hi : A i) (h : does i d d') : Writes does A d d' := .head hi h .refl

lemma trans (h : Writes does A d d') (h' : Writes does A d' d'') : Writes does A d d'' := by
  induction h with
  | refl => exact h'
  | head hi hd _ ih => exact .head hi hd (ih h')

lemma mono (hAB : ∀ i, A i → B i) (h : Writes does A d d') : Writes does B d d' := by
  induction h with
  | refl => exact .refl
  | head hi hd _ ih => exact .head (hAB _ hi) hd ih

/-- What every statement keeps is kept. -/
theorem keeps {P : δ → Prop} (hP : ∀ i d d', A i → does i d d' → P d → P d')
    (h : Writes does A d d') (hd : P d) : P d' := by
  induction h with
  | refl => exact hd
  | head hi hdoes _ ih => exact ih (hP _ _ _ hi hdoes hd)

/-- A preorder that relates the disks before and after every statement relates those before and
after all of them. -/
theorem related {R : δ → δ → Prop} (hrefl : ∀ d, R d d) (htrans : ∀ a b c, R a b → R b c → R a c)
    (hR : ∀ i d d', A i → does i d d' → R d d') (h : Writes does A d d') : R d d' := by
  induction h with
  | refl => exact hrefl _
  | head hi hdoes _ ih => exact htrans _ _ _ (hR _ _ _ hi hdoes) ih

end Writes

/-! ### Bodies -/

namespace Body

/-- The statements of `b` are in `A`. -/
def Issues (does : ι → δ → δ → Prop) (A : ι → Prop) (b : Body δ ε α) : Prop :=
  ∀ d a d', b d = .ok (a, d') → Writes does A d d'

namespace Issues

lemma pure (a : α) : Issues does A (Pure.pure a : Body δ ε α) := by
  intro d r d' h
  rw [(pure_eq_ok.mp h).2]
  exact .refl

lemma ask (q : δ → Except ε α) : Issues does A (Body.ask q) := by
  intro d a d' h
  rw [(ask_eq_ok.mp h).2]
  exact .refl

lemma bind {b : Body δ ε α} {f : α → Body δ ε β} (hb : Issues does A b)
    (hf : ∀ a, Issues does A (f a)) : Issues does A (b >>= f) := by
  intro d r d'' h
  obtain ⟨a, d', h1, h2⟩ := bind_eq_ok.mp h
  exact (hb d a d' h1).trans (hf a d' r d'' h2)

lemma ite {c : Prop} [Decidable c] {b b' : Body δ ε α} (h : c → Issues does A b)
    (h' : ¬ c → Issues does A b') : Issues does A (if c then b else b') := by
  split_ifs with hc
  · exact h hc
  · exact h' hc

end Issues

end Body

/-! ### Programs -/

namespace Prog

variable [Durable σ δ]

/-- From the state `s`, the statements of `p` are in `A`. -/
def Wrote (does : ι → δ → δ → Prop) (A : ι → Prop) (p : Prog σ δ ε α) (s : σ) : Prop :=
  Writes does A (disk s) (disk (p s).state)

namespace Wrote

variable {s : σ}

lemma of_disk {p : Prog σ δ ε α} (h : disk (p s).state = disk s) : Wrote does A p s := by
  unfold Wrote
  rw [h]
  exact .refl

lemma bind {p : Prog σ δ ε α} {f : α → Prog σ δ ε β} (hp : Wrote does A p s)
    (hf : ∀ a, (p s).result = .ok a → Wrote does A (f a) (p s).state) :
    Wrote does A (p >>= f) s := by
  unfold Wrote at hp hf ⊢
  cases h : p s with
  | mk r s' l =>
    rw [h] at hp hf
    cases r with
    | error e =>
      rw [bind_apply_error h]
      exact hp
    | ok a =>
      rw [bind_apply_ok h]
      exact hp.trans (hf a rfl)

lemma bind_query {q : σ → Except ε α} {f : α → Prog σ δ ε β}
    (h : ∀ a, q s = .ok a → Wrote does A (f a) s) : Wrote does A (query q >>= f) s :=
  bind (of_disk rfl) h

lemma transaction {b : Body δ ε α} (hb : Body.Issues does A b) :
    Wrote does A (Prog.transaction b : Prog σ δ ε α) s := by
  unfold Wrote Prog.transaction
  cases h : b (disk s) with
  | error e => exact .refl
  | ok r =>
    dsimp only
    rw [Durable.disk_setDisk]
    exact hb _ _ _ h

end Wrote

end Prog

end Txn
