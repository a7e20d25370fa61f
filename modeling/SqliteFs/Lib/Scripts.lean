import SqliteFs.Lib.Writes

/-!
# Scripts

Where the statements of a program are known one by one, in their order, more can be said of it than
what each of them keeps: what one of them establishes holds at the end, if none after it takes it
back.
-/

namespace Txn

universe u v

variable {δ : Type u} {ι : Type v} {does : ι → δ → δ → Prop}

/-- The statements, one after the other, lead from one disk to the other. -/
inductive Steps (does : ι → δ → δ → Prop) : List ι → δ → δ → Prop
  | nil {d : δ} : Steps does [] d d
  | cons {i : ι} {l : List ι} {d d' d'' : δ} : does i d d' → Steps does l d' d'' →
      Steps does (i :: l) d d''

namespace Steps

variable {l l' : List ι} {d d' d'' : δ}

lemma single {i : ι} (h : does i d d') : Steps does [i] d d' := .cons h .nil

lemma append (h : Steps does l d d') (h' : Steps does l' d' d'') : Steps does (l ++ l') d d'' := by
  induction h with
  | nil => exact h'
  | cons hi _ ih => exact .cons hi (ih h')

/-- Statements of which only a bound is known make some script within the bound. -/
lemma of_writes {A : ι → Prop} (h : Writes does A d d') :
    ∃ l, (∀ i ∈ l, A i) ∧ Steps does l d d' := by
  induction h with
  | refl => exact ⟨[], fun _ h => absurd h List.not_mem_nil, .nil⟩
  | head hi hd _ ih =>
    obtain ⟨l, hl, hsteps⟩ := ih
    exact ⟨_ :: l, List.forall_mem_cons.mpr ⟨hi, hl⟩, .cons hd hsteps⟩

lemma writes (h : Steps does l d d') : Writes does (· ∈ l) d d' := by
  induction h with
  | nil => exact .refl
  | cons hi _ ih =>
    exact .head List.mem_cons_self hi (Writes.mono (fun _ => List.mem_cons_of_mem _) ih)

/-- What every statement of the script keeps is kept. -/
theorem keeps {P : δ → Prop} (hP : ∀ i ∈ l, ∀ d d', does i d d' → P d → P d')
    (h : Steps does l d d') (hd : P d) : P d' :=
  h.writes.keeps (fun i d d' hi => hP i hi d d') hd

/-- A preorder that relates the disks before and after every statement of the script relates those
before and after the script. -/
theorem related {R : δ → δ → Prop} (hrefl : ∀ d, R d d) (htrans : ∀ a b c, R a b → R b c → R a c)
    (hR : ∀ i ∈ l, ∀ d d', does i d d' → R d d') (h : Steps does l d d') : R d d' :=
  h.writes.related hrefl htrans fun i d d' hi => hR i hi d d'

/-- What one statement of the script establishes and the others keep holds after it. -/
theorem establishes {P : δ → Prop} (hP : ∀ i ∈ l, ∀ d d', does i d d' → P d → P d')
    (hsets : ∃ i ∈ l, ∀ d d', does i d d' → P d') (h : Steps does l d d') : P d' := by
  induction h with
  | nil =>
    obtain ⟨i, hi, -⟩ := hsets
    exact absurd hi List.not_mem_nil
  | @cons i l d d₁ d' hi hrest ih =>
    have hkeeps : ∀ j ∈ l, ∀ d d', does j d d' → P d → P d' :=
      fun j hj => hP j (List.mem_cons_of_mem i hj)
    obtain ⟨j, hj, hset⟩ := hsets
    rcases List.mem_cons.mp hj with rfl | hj
    · exact hrest.keeps hkeeps (hset _ _ hi)
    · exact ih hkeeps ⟨j, hj, hset⟩

end Steps

end Txn
