import SqliteFs.Lib.Run
import SqliteFs.Lib.Txn

/-!
# Programs that play steps

A program that is put together from the steps of a machine moves the state as these steps do, one
after the other, whatever its parts hand on to each other and wherever it stops.
-/

namespace Run

variable {σ ι : Type*} {step : ι → σ → σ}

@[simp] lemma after_nil (s : σ) : after step [] s = s := rfl

@[simp] lemma after_cons (i : ι) (l : List ι) (s : σ) :
    after step (i :: l) s = after step l (step i s) := rfl

lemma after_append (l l' : List ι) (s : σ) :
    after step (l ++ l') s = after step l' (after step l s) :=
  List.foldl_append

/-- Steps that satisfy `Ok` wherever they are taken continue a run. -/
lemma after_of_forall_mem {init : σ → Prop} {Ok : σ → ι → Prop} (l : List ι)
    (hl : ∀ i ∈ l, ∀ s, Ok s i) :
    ∀ {s : σ}, Run init step Ok s → Run init step Ok (after step l s) := by
  induction l with
  | nil => exact fun h => h
  | cons i l ih =>
    intro s h
    exact ih (fun j hj => hl j (List.mem_cons_of_mem _ hj)) (next h (hl i List.mem_cons_self s))

end Run

namespace Txn

universe u

variable {σ δ ε α β : Type u} {ι : Type*} {step : ι → σ → σ} {A : ι → Prop}

namespace Prog

/-- What `p` does to the state `s`, some steps in `A` do, one after the other. -/
def PlaysFrom (step : ι → σ → σ) (A : ι → Prop) (p : Prog σ δ ε α) (s : σ) : Prop :=
  ∃ l : List ι, (∀ i ∈ l, A i) ∧ (p s).state = Run.after step l s

/-- Whatever the state, `p` does to it what some steps in `A` do. -/
def Plays (step : ι → σ → σ) (A : ι → Prop) (p : Prog σ δ ε α) : Prop :=
  ∀ s, PlaysFrom step A p s

/-- What `p` does to the state `s`, at most one step in `A` does. -/
def Once (step : ι → σ → σ) (A : ι → Prop) (p : Prog σ δ ε α) (s : σ) : Prop :=
  (p s).state = s ∨ ∃ i, A i ∧ (p s).state = step i s

/-- A program leaves the state alone. -/
def Idle (p : Prog σ δ ε α) : Prop := ∀ s, (p s).state = s

lemma bind_state_of_idle {p : Prog σ δ ε α} {f : α → Prog σ δ ε β} (hf : ∀ a, Idle (f a)) (s : σ) :
    ((p >>= f) s).state = (p s).state := by
  cases hrun : p s with
  | mk x t commits =>
    cases x with
    | error e => rw [bind_apply_error hrun]
    | ok a =>
      rw [bind_apply_ok hrun]
      exact hf a t

namespace Once

variable {s : σ}

lemma idle {p : Prog σ δ ε α} (h : (p s).state = s) : Once step A p s := Or.inl h

lemma single {p : Prog σ δ ε α} {i : ι} (hi : A i) (h : (p s).state = step i s) : Once step A p s :=
  Or.inr ⟨i, hi, h⟩

/-- What comes behind the step may read. -/
lemma andThen {p : Prog σ δ ε α} {f : α → Prog σ δ ε β} (hp : Once step A p s)
    (hf : ∀ a, Idle (f a)) : Once step A (p >>= f) s := by
  unfold Once
  rw [bind_state_of_idle hf]
  exact hp

/-- What comes before the step may read. -/
lemma read {p : Prog σ δ ε α} {f : α → Prog σ δ ε β} (hp : (p s).state = s)
    (hf : ∀ a, (p s).result = .ok a → Once step A (f a) s) : Once step A (p >>= f) s := by
  cases hrun : p s with
  | mk x t commits =>
    rw [hrun] at hp hf
    obtain rfl : t = s := hp
    cases x with
    | error e =>
      refine idle ?_
      rw [bind_apply_error hrun]
    | ok a =>
      unfold Once
      rw [bind_apply_ok hrun]
      exact hf a rfl

lemma playsFrom {p : Prog σ δ ε α} (h : Once step A p s) : PlaysFrom step A p s := by
  rcases h with h | ⟨i, hi, h⟩
  · exact ⟨[], fun _ hj => absurd hj List.not_mem_nil, h⟩
  · exact ⟨[i], fun _ hj => List.mem_singleton.mp hj ▸ hi, h⟩

end Once

namespace PlaysFrom

variable {s : σ}

/-- A program that leaves the state alone plays no step. -/
lemma idle {p : Prog σ δ ε α} (h : (p s).state = s) : PlaysFrom step A p s :=
  (Once.idle h).playsFrom

lemma bind {p : Prog σ δ ε α} {f : α → Prog σ δ ε β} (hp : PlaysFrom step A p s)
    (hf : ∀ a, (p s).result = .ok a → PlaysFrom step A (f a) (p s).state) :
    PlaysFrom step A (p >>= f) s := by
  obtain ⟨l, hl, hs⟩ := hp
  cases hrun : p s with
  | mk x t commits =>
    rw [hrun] at hs hf
    cases x with
    | error e =>
      refine ⟨l, hl, ?_⟩
      rw [bind_apply_error hrun]
      exact hs
    | ok a =>
      obtain ⟨l', hl', hs'⟩ := hf a rfl
      refine ⟨l ++ l', fun i hi => (List.mem_append.mp hi).elim (hl i) (hl' i), ?_⟩
      rw [bind_apply_ok hrun, Run.after_append, ← hs]
      exact hs'

/-- What follows a reading starts where the reading did. -/
lemma read {p : Prog σ δ ε α} {f : α → Prog σ δ ε β} (hp : (p s).state = s)
    (hf : ∀ a, (p s).result = .ok a → PlaysFrom step A (f a) s) : PlaysFrom step A (p >>= f) s := by
  refine bind (idle hp) fun a ha => ?_
  rw [hp]
  exact hf a ha

end PlaysFrom

namespace Plays

lemma idle {p : Prog σ δ ε α} (h : Idle p) : Plays step A p := fun s => .idle (h s)

lemma pure (a : α) : Plays step A (Pure.pure a : Prog σ δ ε α) := idle fun _ => rfl

lemma bind {p : Prog σ δ ε α} {f : α → Prog σ δ ε β} (hp : Plays step A p)
    (hf : ∀ a, Plays step A (f a)) : Plays step A (p >>= f) :=
  fun s => (hp s).bind fun a _ => hf a _

lemma ite {c : Prop} [Decidable c] {p p' : Prog σ δ ε α} (h : Plays step A p)
    (h' : Plays step A p') : Plays step A (if c then p else p') := by
  split_ifs
  · exact h
  · exact h'

end Plays

end Prog

end Txn
