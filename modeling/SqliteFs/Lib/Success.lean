import SqliteFs.Lib.Txn

/-!
# When a program returns

The condition on the state under which a program returns a value, along the program text.
-/

namespace Txn

universe u

variable {σ δ ε α β : Type u}

namespace Body

/-- `b` returns a value on `d`. -/
def Returns (b : Body δ ε α) (d : δ) : Prop := ∃ a d', b d = .ok (a, d')

lemma returns_bind {b : Body δ ε β} {f : β → Body δ ε α} {d : δ} :
    Returns (b >>= f) d ↔ ∃ a d', b d = .ok (a, d') ∧ Returns (f a) d' := by
  constructor
  · rintro ⟨r, d'', h⟩
    obtain ⟨a, d', ha, hr⟩ := bind_eq_ok.mp h
    exact ⟨a, d', ha, r, d'', hr⟩
  · rintro ⟨a, d', ha, r, d'', hr⟩
    exact ⟨r, d'', bind_eq_ok.mpr ⟨a, d', ha, hr⟩⟩

lemma Returns.bind {b : Body δ ε β} {f : β → Body δ ε α} {a : β} {d d' : δ} (h : b d = .ok (a, d'))
    (hf : Returns (f a) d') : Returns (b >>= f) d :=
  returns_bind.mpr ⟨a, d', h, hf⟩

lemma Returns.bind_of {b : Body δ ε β} {f : β → Body δ ε α} {d : δ} (h : Returns b d)
    (hf : ∀ a d', b d = .ok (a, d') → Returns (f a) d') : Returns (b >>= f) d := by
  obtain ⟨a, d', hd'⟩ := h
  exact .bind hd' (hf a d' hd')

lemma returns_pure (a : α) (d : δ) : Returns (Pure.pure a : Body δ ε α) d :=
  ⟨a, d, pure_eq_ok.mpr ⟨rfl, rfl⟩⟩

/-- The errors of `b` are among `E`. -/
def Raises (E : ε → Prop) (b : Body δ ε α) : Prop := ∀ d e, b d = .error e → E e

namespace Raises

variable {E : ε → Prop}

lemma pure (a : α) : Raises E (Pure.pure a : Body δ ε α) := fun _ _ h => nomatch h

lemma bind {b : Body δ ε β} {f : β → Body δ ε α} (hb : Raises E b) (hf : ∀ a, Raises E (f a)) :
    Raises E (b >>= f) := by
  intro d e h
  rw [bind_apply] at h
  cases hd : b d with
  | error x =>
    rw [hd] at h
    obtain rfl := Except.error.inj h
    exact hb d x hd
  | ok r =>
    rw [hd] at h
    exact hf r.1 r.2 e h

lemma ask {q : δ → Except ε α} (hq : ∀ d e, q d = .error e → E e) : Raises E (Body.ask q) := by
  intro d e h
  unfold Body.ask at h
  cases hd : q d with
  | error x =>
    rw [hd] at h
    exact hq d e (hd.trans (congrArg _ (Except.error.inj h)))
  | ok a =>
    rw [hd] at h
    cases h

lemma exec {f : δ → Except ε δ} (hf : ∀ d e, f d = .error e → E e) : Raises E (Body.exec f) := by
  intro d e h
  unfold Body.exec at h
  cases hd : f d with
  | error x =>
    rw [hd] at h
    exact hf d e (hd.trans (congrArg _ (Except.error.inj h)))
  | ok a =>
    rw [hd] at h
    cases h

lemma ite {c : Prop} [Decidable c] {b b' : Body δ ε α} (h : Raises E b) (h' : Raises E b') :
    Raises E (if c then b else b') := by
  split_ifs
  · exact h
  · exact h'

end Raises

end Body

namespace Prog

/-- `p` returns a value at `s`. -/
def Returns (p : Prog σ δ ε α) (s : σ) : Prop := ∃ a, (p s).result = .ok a

variable {s : σ} {f : β → Prog σ δ ε α}

lemma returns_of_run {p : Prog σ δ ε α} {o : Outcome σ δ ε α} {a : α} (h : p s = o)
    (ha : o.result = .ok a) : Returns p s :=
  ⟨a, (congrArg Outcome.result h).trans ha⟩

lemma returns_congr {p p' : Prog σ δ ε α} {s' : σ} (h : p s = p' s') :
    Returns p s ↔ Returns p' s' := by
  unfold Returns
  rw [h]

lemma not_returns_of_error {p : Prog σ δ ε α} {s' : σ} {e : ε} {l : List δ}
    (h : p s = ⟨.error e, s', l⟩) : ¬ Returns p s := by
  rintro ⟨a, ha⟩
  rw [h] at ha
  cases ha

@[simp] lemma returns_pure (a : α) : Returns (Pure.pure a : Prog σ δ ε α) s := ⟨a, rfl⟩

lemma returns_query {q : σ → Except ε α} :
    Returns (query q : Prog σ δ ε α) s ↔ ∃ a, q s = .ok a := Iff.rfl

lemma returns_bind_query {q : σ → Except ε β} :
    Returns (query q >>= f) s ↔ ∃ b, q s = .ok b ∧ Returns (f b) s := by
  cases hq : q s with
  | error e =>
    refine iff_of_false (not_returns_of_error (query_bind_error hq)) ?_
    rintro ⟨b, hb, -⟩
    cases hb
  | ok b =>
    rw [returns_congr (query_bind_ok hq)]
    constructor
    · exact fun h => ⟨b, rfl, h⟩
    · rintro ⟨b', hb', h⟩
      cases hb'
      exact h

lemma returns_bind_ensure {f : PUnit → Prog σ δ ε α} {c : Prop} [Decidable c] {e : ε} :
    Returns (ensure c e >>= f) s ↔ c ∧ Returns (f ⟨⟩) s := by
  unfold ensure
  rw [returns_bind_query]
  constructor
  · rintro ⟨b, hb, h⟩
    split_ifs at hb with hc
    exact ⟨hc, h⟩
  · rintro ⟨hc, h⟩
    exact ⟨⟨⟩, if_pos hc, h⟩

lemma returns_bind_transaction [Durable σ δ] {b : Body δ ε β} :
    Returns (transaction b >>= f) s ↔
      ∃ a d, b (disk s) = .ok (a, d) ∧ Returns (f a) (setDisk s d) := by
  cases hb : b (disk s) with
  | error e =>
    have hrun : transaction b s = ⟨.error e, s, []⟩ := by rw [transaction, hb]
    refine iff_of_false (not_returns_of_error (bind_apply_error hrun)) ?_
    rintro ⟨a, d, hab, -⟩
    cases hab
  | ok r =>
    obtain ⟨a, d⟩ := r
    have hrun : transaction b s = ⟨.ok a, setDisk s d, [d]⟩ := by rw [transaction, hb]
    constructor
    · rintro ⟨x, hx⟩
      rw [bind_apply_ok hrun] at hx
      exact ⟨a, d, rfl, x, hx⟩
    · rintro ⟨a', d', hab, x, hx⟩
      cases hab
      refine ⟨x, ?_⟩
      rw [bind_apply_ok hrun]
      exact hx

/-- A program that returns has not refused. -/
lemma RefusesOr.of_ok {p : Prog σ δ ε α} {Q : Outcome σ δ ε α → Prop} {a : α} (h : RefusesOr p s Q)
    (ha : (p s).result = .ok a) : Q (p s) := by
  rcases h with ⟨e, he⟩ | h
  · rw [he] at ha
    cases ha
  · exact h

/-- A program that refuses unless `P` holds, and runs through if it does. -/
lemma returns_iff_of_refusesOr {p : Prog σ δ ε α} {P : Prop} (h : RefusesOr p s fun _ => P)
    (hrun : P → Returns p s) : Returns p s ↔ P := by
  rcases h with ⟨e, he⟩ | hP
  · exact ⟨fun hr => absurd hr (not_returns_of_error he), hrun⟩
  · exact iff_of_true (hrun hP) hP

end Prog

end Txn
