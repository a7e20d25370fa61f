import Mathlib.Data.List.Basic

/-!
# Programs over a durable store

A program runs on a state with a durable part (the disk) and a volatile part. It changes the
disk by transactions only: a transaction runs a body on the current disk and either commits the
body's result or leaves the disk alone. The outcome of a program records, besides its result
and final state, the disk at every commit, which is what a crash between two commits can expose.

Whether failing leaves a trace, and what a crash can show, both follow from a description of what
the program does when it does not refuse (`RefusesOr`), which is built along the program text: a
reading either refuses or hands its value on, and a transaction either refuses or hands on its new
disk.
-/

namespace Txn

universe u

/-- A state `σ` with a durable part `δ`. -/
class Durable (σ : Type u) (δ : outParam (Type u)) where
  disk : σ → δ
  setDisk : σ → δ → σ
  disk_setDisk : ∀ s d, disk (setDisk s d) = d

export Durable (disk setDisk)

attribute [simp] Durable.disk_setDisk

/-- What a program did: its result, the state it left, and the disk at each of its commits. -/
structure Outcome (σ δ ε α : Type u) where
  result : Except ε α
  state : σ
  commits : List δ

/-- Programs with state `σ`, durable part `δ` and failures `ε`. -/
def Prog (σ δ ε α : Type u) : Type u := σ → Outcome σ δ ε α

/-- The body of a transaction, which works on the disk only. -/
abbrev Body (δ ε : Type u) : Type u → Type u := StateT δ (Except ε)

variable {σ δ ε α β : Type u}

namespace Prog

instance : Monad (Prog σ δ ε) where
  pure a s := ⟨.ok a, s, []⟩
  bind p f s :=
    match (p s).result with
    | .ok a =>
      let o := f a (p s).state
      ⟨o.result, o.state, (p s).commits ++ o.commits⟩
    | .error e => ⟨.error e, (p s).state, (p s).commits⟩

/-- Read the state, and fail if the reading does. -/
def query (q : σ → Except ε α) : Prog σ δ ε α := fun s => ⟨q s, s, []⟩

/-- Fail with `e` unless `c` holds. -/
def ensure (c : Prop) [Decidable c] (e : ε) : Prog σ δ ε PUnit :=
  query fun _ => if c then .ok ⟨⟩ else .error e

/-- Work on the volatile part of the state. -/
def volatile (f : σ → Except ε α × σ) : Prog σ δ ε α := fun s => ⟨(f s).1, (f s).2, []⟩

/-- Run `b` on the disk; commit what it leaves, or nothing if it fails. -/
def transaction [Durable σ δ] (b : Body δ ε α) : Prog σ δ ε α := fun s =>
  match b (disk s) with
  | .ok (a, d) => ⟨.ok a, setDisk s d, [d]⟩
  | .error e => ⟨.error e, s, []⟩

/-! ### Running a composed program -/

@[simp] lemma pure_apply (a : α) (s : σ) : (pure a : Prog σ δ ε α) s = ⟨.ok a, s, []⟩ := rfl

lemma bind_apply_ok {p : Prog σ δ ε α} {f : α → Prog σ δ ε β} {s s' : σ} {a : α} {l : List δ}
    (h : p s = ⟨.ok a, s', l⟩) :
    (p >>= f) s = ⟨(f a s').result, (f a s').state, l ++ (f a s').commits⟩ := by
  simp only [bind, h]

lemma bind_apply_error {p : Prog σ δ ε α} {f : α → Prog σ δ ε β} {s s' : σ} {e : ε} {l : List δ}
    (h : p s = ⟨.error e, s', l⟩) : (p >>= f) s = ⟨.error e, s', l⟩ := by
  simp only [bind, h]

lemma bind_congr {p p' : Prog σ δ ε α} {f : α → Prog σ δ ε β} {s : σ} (h : p s = p' s) :
    (p >>= f) s = (p' >>= f) s := by
  simp only [bind, h]

lemma query_bind_ok {q : σ → Except ε α} {f : α → Prog σ δ ε β} {s : σ} {a : α}
    (h : q s = .ok a) : ((query q : Prog σ δ ε α) >>= f) s = f a s := by
  rw [bind_apply_ok (show query q s = ⟨.ok a, s, []⟩ by rw [query, h])]
  rfl

lemma query_bind_error {q : σ → Except ε α} {f : α → Prog σ δ ε β} {s : σ} {e : ε}
    (h : q s = .error e) : ((query q : Prog σ δ ε α) >>= f) s = ⟨.error e, s, []⟩ :=
  bind_apply_error (by rw [query, h])

lemma volatile_bind_ok {g : σ → Except ε α × σ} {f : α → Prog σ δ ε β} {s : σ} {a : α}
    (h : (g s).1 = .ok a) : ((volatile g : Prog σ δ ε α) >>= f) s = f a (g s).2 := by
  rw [bind_apply_ok (show volatile g s = ⟨.ok a, (g s).2, []⟩ by rw [volatile, h])]
  rfl

/-! ### Refusals -/

/-- Either `p` refuses at `s`, with the state untouched and nothing committed, or its outcome
satisfies `Q`. -/
def RefusesOr (p : Prog σ δ ε α) (s : σ) (Q : Outcome σ δ ε α → Prop) : Prop :=
  (∃ e, p s = ⟨.error e, s, []⟩) ∨ Q (p s)

namespace RefusesOr

variable {s : σ} {Q Q' : Outcome σ δ ε α → Prop} {p : Prog σ δ ε α}

lemma of_run (h : Q (p s)) : RefusesOr p s Q := Or.inr h

lemma mono (h : RefusesOr p s Q) (hQ : ∀ o, Q o → Q' o) : RefusesOr p s Q' :=
  h.imp_right (hQ _)

lemma bind_query {q : σ → Except ε β} {f : β → Prog σ δ ε α}
    (h : ∀ b, q s = .ok b → RefusesOr (f b) s Q) : RefusesOr (query q >>= f) s Q := by
  cases hq : q s with
  | error e => exact Or.inl ⟨e, query_bind_error hq⟩
  | ok b =>
    unfold RefusesOr
    rw [query_bind_ok hq]
    exact h b hq

lemma bind_ensure {c : Prop} [Decidable c] {e : ε} {f : PUnit → Prog σ δ ε α}
    (h : c → RefusesOr (f ⟨⟩) s Q) : RefusesOr (ensure c e >>= f) s Q := by
  refine bind_query fun _ hq => h ?_
  by_contra hc
  simp [hc] at hq

lemma bind_transaction [Durable σ δ] {b : Body δ ε β} {f : β → Prog σ δ ε α}
    (h : ∀ a d, b (disk s) = .ok (a, d) →
      Q ⟨(f a (setDisk s d)).result, (f a (setDisk s d)).state,
        d :: (f a (setDisk s d)).commits⟩) :
    RefusesOr (transaction b >>= f) s Q := by
  cases hb : b (disk s) with
  | error e => exact Or.inl ⟨e, bind_apply_error (by rw [transaction, hb])⟩
  | ok r =>
    obtain ⟨a, d⟩ := r
    refine of_run ?_
    rw [bind_apply_ok (show transaction b s = ⟨.ok a, setDisk s d, [d]⟩ by rw [transaction, hb])]
    exact h a d hb

lemma query {q : σ → Except ε α} (h : ∀ a, q s = .ok a → Q ⟨.ok a, s, []⟩) :
    RefusesOr (Prog.query q) s Q := by
  cases hq : q s with
  | error e => exact Or.inl ⟨e, by rw [Prog.query, hq]⟩
  | ok a => exact of_run (by rw [Prog.query, hq]; exact h a hq)

lemma volatile {g : σ → Except ε α × σ} (herr : ∀ e, (g s).1 = .error e → (g s).2 = s)
    (h : ∀ a, (g s).1 = .ok a → Q ⟨.ok a, (g s).2, []⟩) : RefusesOr (Prog.volatile g) s Q := by
  cases hg : (g s).1 with
  | error e => exact Or.inl ⟨e, by rw [Prog.volatile, hg, herr e hg]⟩
  | ok a => exact of_run (by rw [Prog.volatile, hg]; exact h a hg)

end RefusesOr

end Prog

/-! ### Transaction bodies -/

namespace Body

/-- A reading of the disk inside a transaction. -/
def ask (q : δ → Except ε α) : Body δ ε α := fun d =>
  match q d with
  | .ok a => .ok (a, d)
  | .error e => .error e

/-- A statement that changes the disk, or fails. -/
def exec (f : δ → Except ε δ) : Body δ ε PUnit := fun d =>
  match f d with
  | .ok d' => .ok (⟨⟩, d')
  | .error e => .error e

lemma bind_apply (b : Body δ ε α) (f : α → Body δ ε β) (d : δ) :
    (b >>= f) d = (b d >>= fun x => f x.1 x.2) := rfl

lemma bind_eq_ok {b : Body δ ε α} {f : α → Body δ ε β} {d d'' : δ} {r : β} :
    (b >>= f) d = .ok (r, d'') ↔ ∃ a d', b d = .ok (a, d') ∧ f a d' = .ok (r, d'') := by
  rw [bind_apply]
  cases b d with
  | error e => simp [bind, Except.bind]
  | ok x =>
    obtain ⟨a, d'⟩ := x
    simp [bind, Except.bind]

@[simp] lemma pure_eq_ok {a r : α} {d d' : δ} :
    (pure a : Body δ ε α) d = .ok (r, d') ↔ r = a ∧ d' = d := by
  change Except.ok (a, d) = .ok (r, d') ↔ _
  simp [eq_comm]

@[simp] lemma ask_eq_ok {q : δ → Except ε α} {a : α} {d d' : δ} :
    (ask q) d = .ok (a, d') ↔ q d = .ok a ∧ d' = d := by
  unfold ask
  cases q d <;> simp [eq_comm]

@[simp] lemma exec_eq_ok {f : δ → Except ε δ} {a : PUnit} {d d' : δ} :
    (exec f) d = .ok (a, d') ↔ f d = .ok d' := by
  unfold exec
  cases f d <;> simp [eq_comm]

lemma ask_bind_eq_ok {q : δ → Except ε α} {f : α → Body δ ε β} {d d' : δ} {r : β} :
    (ask q >>= f) d = .ok (r, d') ↔ ∃ a, q d = .ok a ∧ f a d = .ok (r, d') := by
  simp only [bind_eq_ok, ask_eq_ok]
  constructor
  · rintro ⟨a, _, ⟨hq, rfl⟩, hf⟩
    exact ⟨a, hq, hf⟩
  · rintro ⟨a, hq, hf⟩
    exact ⟨a, d, ⟨hq, rfl⟩, hf⟩

lemma exec_bind_eq_ok {g : δ → Except ε δ} {f : PUnit → Body δ ε β} {d d'' : δ} {r : β} :
    (exec g >>= f) d = .ok (r, d'') ↔ ∃ d', g d = .ok d' ∧ f ⟨⟩ d' = .ok (r, d'') := by
  simp only [bind_eq_ok, exec_eq_ok]
  constructor
  · rintro ⟨_, d', hg, hf⟩
    exact ⟨d', hg, hf⟩
  · rintro ⟨d', hg, hf⟩
    exact ⟨⟨⟩, d', hg, hf⟩

/-! #### Invariants of the disk -/

/-- `b` keeps `P`, where it does not fail. -/
def Keeps (P : δ → Prop) (b : Body δ ε α) : Prop := ∀ d a d', P d → b d = .ok (a, d') → P d'

namespace Keeps

variable {P : δ → Prop}

lemma pure (a : α) : Keeps P (Pure.pure a : Body δ ε α) := by
  intro d r d' hd h
  rw [(pure_eq_ok.mp h).2]
  exact hd

lemma bind {b : Body δ ε α} {f : α → Body δ ε β} (hb : Keeps P b) (hf : ∀ a, Keeps P (f a)) :
    Keeps P (b >>= f) := by
  intro d r d'' hd h
  obtain ⟨a, d', h1, h2⟩ := bind_eq_ok.mp h
  exact hf a d' r d'' (hb d a d' hd h1) h2

lemma ask (q : δ → Except ε α) : Keeps P (Body.ask q) := by
  intro d a d' hd h
  rw [(ask_eq_ok.mp h).2]
  exact hd

lemma exec {f : δ → Except ε δ} (hf : ∀ d d', P d → f d = .ok d' → P d') :
    Keeps P (Body.exec f) :=
  fun d _ d' hd h => hf d d' hd (exec_eq_ok.mp h)

lemma ite {c : Prop} [Decidable c] {b b' : Body δ ε α} (h : Keeps P b) (h' : Keeps P b') :
    Keeps P (if c then b else b') := by
  split_ifs
  · exact h
  · exact h'

end Keeps

end Body

/-! ### Invariants of the disk -/

namespace Prog

variable [Durable σ δ]

/-- `p` keeps `P` at every commit. -/
def Keeps (P : δ → Prop) (p : Prog σ δ ε α) : Prop :=
  ∀ s, P (disk s) → P (disk (p s).state) ∧ ∀ d ∈ (p s).commits, P d

namespace Keeps

variable {P : δ → Prop}

lemma query (q : σ → Except ε α) : Keeps P (Prog.query q : Prog σ δ ε α) :=
  fun _ hs => ⟨hs, fun _ hd => absurd hd List.not_mem_nil⟩

lemma pure (a : α) : Keeps P (Pure.pure a : Prog σ δ ε α) :=
  fun _ hs => ⟨hs, fun _ hd => absurd hd List.not_mem_nil⟩

lemma volatile {g : σ → Except ε α × σ} (hg : ∀ s, disk (g s).2 = disk s) :
    Keeps P (Prog.volatile g : Prog σ δ ε α) := by
  intro s hs
  refine ⟨?_, fun _ hd => absurd hd List.not_mem_nil⟩
  change P (disk (g s).2)
  rw [hg]
  exact hs

lemma bind {p : Prog σ δ ε α} {f : α → Prog σ δ ε β} (hp : Keeps P p) (hf : ∀ a, Keeps P (f a)) :
    Keeps P (p >>= f) := by
  intro s hs
  obtain ⟨hstate, hcommits⟩ := hp s hs
  cases hr : p s with
  | mk r s' l =>
    rw [hr] at hstate hcommits
    cases r with
    | error e =>
      rw [bind_apply_error hr]
      exact ⟨hstate, hcommits⟩
    | ok a =>
      rw [bind_apply_ok hr]
      obtain ⟨hstate', hcommits'⟩ := hf a s' hstate
      refine ⟨hstate', fun d hd => ?_⟩
      rcases List.mem_append.mp hd with hd | hd
      · exact hcommits d hd
      · exact hcommits' d hd

lemma transaction {b : Body δ ε α} (hb : Body.Keeps P b) :
    Keeps P (Prog.transaction b : Prog σ δ ε α) := by
  intro s hs
  unfold Prog.transaction
  cases h : b (disk s) with
  | error e => exact ⟨hs, fun _ hd => absurd hd List.not_mem_nil⟩
  | ok r =>
    have hr := hb (disk s) r.1 r.2 hs h
    refine ⟨?_, fun d hd => ?_⟩
    · rw [Durable.disk_setDisk]
      exact hr
    · rw [List.mem_singleton.mp hd]
      exact hr

lemma ite {c : Prop} [Decidable c] {p p' : Prog σ δ ε α} (h : Keeps P p) (h' : Keeps P p') :
    Keeps P (if c then p else p') := by
  split_ifs
  · exact h
  · exact h'

end Keeps

end Prog

end Txn
