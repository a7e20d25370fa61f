import Mathlib.Data.List.Nodup
import Mathlib.Algebra.Order.Group.Nat

/-!
# Tables with a primary key

A table is a list of rows whose keys are pairwise different. The operations are those of a
relational store: look a row up, insert, put (insert or replace), update in place, give a row a
new key, delete, and count. Each of them keeps the keys different, so a table in which a key
occurs twice cannot be built.
-/

/-- Rows of type `ρ` are identified by a key of type `κ`. -/
class Keyed (ρ : Type*) (κ : outParam Type*) where
  key : ρ → κ

/-- A list of rows with pairwise different keys. -/
structure KeyTable (ρ : Type*) {κ : Type*} [Keyed ρ κ] where
  rows : List ρ
  nodup : (rows.map Keyed.key).Nodup

namespace KeyTable

open Keyed

variable {ρ κ : Type*} [Keyed ρ κ]

@[ext] lemma ext {t t' : KeyTable ρ} (h : t.rows = t'.rows) : t = t' := by
  cases t; cases t'; cases h; rfl

instance [DecidableEq ρ] : DecidableEq (KeyTable ρ) := fun t t' =>
  decidable_of_iff (t.rows = t'.rows) ⟨ext, fun h => h ▸ rfl⟩

instance : Membership ρ (KeyTable ρ) := ⟨fun t r => r ∈ t.rows⟩

instance [DecidableEq ρ] (r : ρ) (t : KeyTable ρ) : Decidable (r ∈ t) :=
  inferInstanceAs (Decidable (r ∈ t.rows))

lemma mem_def {t : KeyTable ρ} {r : ρ} : r ∈ t ↔ r ∈ t.rows := Iff.rfl

/-- Two rows of a table with one key are the same row. -/
lemma eq_of_key {t : KeyTable ρ} {r r' : ρ} (hr : r ∈ t) (hr' : r' ∈ t) (h : key r = key r') :
    r = r' :=
  List.inj_on_of_nodup_map t.nodup hr hr' h

/-- The table without rows. -/
def empty : KeyTable ρ := ⟨[], by simp⟩

/-- The rows that satisfy `p`, in table order. -/
def select (t : KeyTable ρ) (p : ρ → Bool) : List ρ := t.rows.filter p

/-- The number of rows that satisfy `p`. -/
def count (t : KeyTable ρ) (p : ρ → Bool) : ℕ := t.rows.countP p

/-- Only what `p` says about the table's own rows matters to a count. -/
lemma count_congr {t : KeyTable ρ} {p q : ρ → Bool} (h : ∀ r ∈ t, p r = q r) :
    t.count p = t.count q :=
  List.countP_congr fun r hr => by rw [h r hr]

/-- Delete the rows that satisfy `p`. -/
def deleteWhere (t : KeyTable ρ) (p : ρ → Bool) : KeyTable ρ :=
  ⟨t.rows.filter fun r => !p r, (List.Sublist.map key List.filter_sublist).nodup t.nodup⟩

/-! ### Selecting, counting and deleting rows -/

lemma mem_select {t : KeyTable ρ} {p : ρ → Bool} {r : ρ} : r ∈ t.select p ↔ r ∈ t ∧ p r := by
  simp [select, mem_def]

lemma count_eq_zero {t : KeyTable ρ} {p : ρ → Bool} : t.count p = 0 ↔ ∀ r ∈ t, p r = false := by
  simp [count, List.countP_eq_zero, mem_def]

lemma count_pos {t : KeyTable ρ} {p : ρ → Bool} : 0 < t.count p ↔ ∃ r ∈ t, p r = true := by
  simp [count, List.countP_pos_iff, mem_def]

@[simp] lemma not_mem_empty (r : ρ) : ¬ r ∈ (empty : KeyTable ρ) := by
  simp [mem_def, empty]

lemma mem_deleteWhere {t : KeyTable ρ} {p : ρ → Bool} {r : ρ} :
    r ∈ t.deleteWhere p ↔ r ∈ t ∧ p r = false := by
  simp [deleteWhere, mem_def]

lemma deleteWhere_eq_self {t : KeyTable ρ} {p : ρ → Bool} (h : ∀ r ∈ t, p r = false) :
    t.deleteWhere p = t := by
  ext1
  exact List.filter_eq_self.mpr fun r hr => by simp [h r hr]

/-- Deleting rows that a selection leaves out does not change it. -/
lemma select_deleteWhere {t : KeyTable ρ} {p q : ρ → Bool} (h : ∀ r ∈ t, p r = true → q r = false) :
    (t.deleteWhere q).select p = t.select p := by
  unfold select deleteWhere
  rw [List.filter_filter]
  refine List.filter_congr fun r hr => ?_
  cases hp : p r with
  | false => rfl
  | true => rw [h r hr hp]; rfl

/-- A selection by key holds just the row with that key. -/
lemma select_key {t : KeyTable ρ} {r : ρ} (hr : r ∈ t) {q : ρ → Bool}
    (hq : ∀ x ∈ t, q x = true ↔ key x = key r) : t.select q = [r] := by
  have hnd : (t.select q).Nodup := (t.nodup.of_map).filter _
  have hall : ∀ x ∈ t.select q, x = r := fun x hx =>
    eq_of_key (mem_select.mp hx).1 hr ((hq x (mem_select.mp hx).1).mp (mem_select.mp hx).2)
  have hmem : r ∈ t.select q := mem_select.mpr ⟨hr, (hq r hr).mpr rfl⟩
  match hl : t.select q with
  | [] => rw [hl] at hmem; exact absurd hmem List.not_mem_nil
  | [x] => rw [hl] at hall; rw [hall x (by simp)]
  | x :: y :: l =>
    rw [hl] at hall hnd
    have hxy : x = y := (hall x (by simp)).trans (hall y (by simp)).symm
    simp [hxy] at hnd

/-- Deleting the row `r` takes it out of the counts it was in. -/
lemma count_deleteWhere_key {t : KeyTable ρ} {r : ρ} (hr : r ∈ t) {q : ρ → Bool}
    (hq : ∀ x ∈ t, q x = true ↔ key x = key r) (p : ρ → Bool) :
    t.count p = (t.deleteWhere q).count p + if p r then 1 else 0 := by
  have hsel : t.rows.filter q = [r] := select_key hr hq
  unfold count deleteWhere
  rw [List.countP_eq_countP_filter_add t.rows p q, hsel, add_comm]
  simp [List.countP_cons]

variable [DecidableEq κ]

/-! ### Operations by key -/

/-- The row with key `k`. -/
def find? (t : KeyTable ρ) (k : κ) : Option ρ := t.rows.find? fun r => key r = k

/-- Add a row; refused when its key is taken. -/
def insert? (t : KeyTable ρ) (r : ρ) : Option (KeyTable ρ) :=
  if h : key r ∈ t.rows.map key then none
  else some ⟨t.rows ++ [r], by
    simp only [List.map_append, List.map_cons, List.map_nil]
    exact t.nodup.append (List.nodup_singleton _) (by simpa using h)⟩

/-- Change the row with key `k`; the change keeps the key. -/
def updateAt (t : KeyTable ρ) (k : κ) (f : ρ → ρ) (hf : ∀ r, key (f r) = key r) : KeyTable ρ :=
  ⟨t.rows.map fun r => if key r = k then f r else r, by
    have : (t.rows.map fun r => if key r = k then f r else r).map key = t.rows.map key := by
      rw [List.map_map]
      apply List.map_congr_left
      intro r _
      simp only [Function.comp_apply]
      split_ifs
      · exact hf r
      · rfl
    exact this ▸ t.nodup⟩

/-- Replace the row that has `r`'s key by `r`, or add `r`. -/
def put (t : KeyTable ρ) (r : ρ) : KeyTable ρ :=
  if h : key r ∈ t.rows.map key then
    ⟨t.rows.map fun x => if key x = key r then r else x, by
      have : (t.rows.map fun x => if key x = key r then r else x).map key = t.rows.map key := by
        rw [List.map_map]
        apply List.map_congr_left
        intro x _
        simp only [Function.comp_apply]
        split_ifs with hx
        · exact hx.symm
        · rfl
      exact this ▸ t.nodup⟩
  else ⟨t.rows ++ [r], by
    simp only [List.map_append, List.map_cons, List.map_nil]
    exact t.nodup.append (List.nodup_singleton _) (by simpa using h)⟩

/-- Turn the row with key `k` into `f` of it, under the new key `k'`; refused when another row
has that key already. -/
def rekey? (t : KeyTable ρ) (k k' : κ) (f : ρ → ρ) (hf : ∀ r, key (f r) = k') :
    Option (KeyTable ρ) :=
  if h : k' ≠ k ∧ k' ∈ t.rows.map key then none
  else some ⟨t.rows.map fun r => if key r = k then f r else r, by
    rw [List.map_map]
    have heq : (key ∘ fun r => if key r = k then f r else r)
        = (fun j => if j = k then k' else j) ∘ (key : ρ → κ) := by
      funext r
      simp only [Function.comp_apply]
      split_ifs
      · exact hf r
      · rfl
    rw [heq, ← List.map_map]
    refine List.Nodup.map_on ?_ t.nodup
    intro i hi j hj hij
    have hk : ∀ x ∈ t.rows.map key, x = k' → k' = k := by
      rintro x hx rfl
      by_contra hne
      exact h ⟨hne, hx⟩
    split_ifs at hij with h1 h2 h2
    · rw [h1, h2]
    · exact absurd ((hij.symm).trans (hk j hj hij.symm)) h2
    · exact absurd (hij.trans (hk i hi hij)) h1
    · exact hij⟩

/-! ### Looking rows up -/

lemma find?_eq_some {t : KeyTable ρ} {k : κ} {r : ρ} :
    t.find? k = some r ↔ r ∈ t ∧ key r = k := by
  constructor
  · intro h
    exact ⟨List.mem_of_find?_eq_some h, by simpa using List.find?_some h⟩
  · rintro ⟨hr, rfl⟩
    cases h : t.find? (key r) with
    | none =>
      have := List.find?_eq_none.mp h r hr
      simp at this
    | some r' =>
      have hr' : r' ∈ t := List.mem_of_find?_eq_some h
      have hk : key r' = key r := by simpa using List.find?_some h
      rw [eq_of_key hr' hr hk]

lemma find?_eq_none {t : KeyTable ρ} {k : κ} : t.find? k = none ↔ ∀ r ∈ t, key r ≠ k := by
  simp [find?, mem_def]

lemma find?_isSome {t : KeyTable ρ} {k : κ} : (t.find? k).isSome ↔ ∃ r ∈ t, key r = k := by
  rw [Option.isSome_iff_exists]
  simp only [find?_eq_some]

lemma find?_key {t : KeyTable ρ} {r : ρ} (h : r ∈ t) : t.find? (key r) = some r :=
  find?_eq_some.mpr ⟨h, rfl⟩

/-- Tables with the same rows for a key answer the same. -/
lemma find?_congr_key {t t' : KeyTable ρ} {k : κ} (h : ∀ r, key r = k → (r ∈ t ↔ r ∈ t')) :
    t.find? k = t'.find? k := by
  refine Option.ext fun r => ?_
  rw [find?_eq_some, find?_eq_some, and_congr_left (h r)]

lemma find?_congr {t t' : KeyTable ρ} (h : ∀ r, r ∈ t ↔ r ∈ t') (k : κ) : t.find? k = t'.find? k :=
  find?_congr_key fun r _ => h r

lemma mem_congr {t t' : KeyTable ρ} (h : ∀ k, t.find? k = t'.find? k) (r : ρ) : r ∈ t ↔ r ∈ t' := by
  have hr := h (key r)
  constructor
  · intro hmem
    exact (find?_eq_some.mp (hr.symm.trans (find?_key hmem))).1
  · intro hmem
    exact (find?_eq_some.mp (hr.trans (find?_key hmem))).1

@[simp] lemma find?_empty (k : κ) : (empty : KeyTable ρ).find? k = none := rfl

/-! ### Inserting -/

lemma insert?_eq_some {t t' : KeyTable ρ} {r : ρ} :
    t.insert? r = some t' ↔ t.find? (key r) = none ∧ t'.rows = t.rows ++ [r] := by
  unfold insert?
  split_ifs with h
  · simp only [false_iff, not_and]
    intro hn
    obtain ⟨x, hx, hk⟩ := List.mem_map.mp h
    exact absurd hk (find?_eq_none.mp hn x hx)
  · simp only [Option.some.injEq]
    constructor
    · rintro rfl
      exact ⟨find?_eq_none.mpr fun x hx hk => h (List.mem_map.mpr ⟨x, hx, hk⟩), rfl⟩
    · rintro ⟨-, hrows⟩
      exact ext hrows.symm

lemma insert?_isSome {t : KeyTable ρ} {r : ρ} :
    (∃ t', t.insert? r = some t') ↔ t.find? (key r) = none := by
  constructor
  · rintro ⟨t', h⟩
    exact (insert?_eq_some.mp h).1
  · intro h
    unfold insert?
    rw [dif_neg]
    · exact ⟨_, rfl⟩
    · intro hm
      obtain ⟨x, hx, hk⟩ := List.mem_map.mp hm
      exact find?_eq_none.mp h x hx hk

lemma mem_insert? {t t' : KeyTable ρ} {r x : ρ} (h : t.insert? r = some t') :
    x ∈ t' ↔ x ∈ t ∨ x = r := by
  rw [mem_def, (insert?_eq_some.mp h).2]
  simp [mem_def]

lemma find?_insert? {t t' : KeyTable ρ} {r : ρ} (h : t.insert? r = some t') (k : κ) :
    t'.find? k = if key r = k then some r else t.find? k := by
  split_ifs with hk
  · exact find?_eq_some.mpr ⟨(mem_insert? h).mpr (Or.inr rfl), hk⟩
  · unfold find?
    rw [(insert?_eq_some.mp h).2]
    simp [hk]

lemma count_insert? {t t' : KeyTable ρ} {r : ρ} (h : t.insert? r = some t') (p : ρ → Bool) :
    t'.count p = t.count p + if p r then 1 else 0 := by
  unfold count
  rw [(insert?_eq_some.mp h).2]
  simp [List.countP_append, List.countP_cons]

/-! ### Updating in place -/

/-- Changing the rows with key `k` is not seen by a filter that leaves them out. -/
lemma filter_map_key {k : κ} {f : ρ → ρ} {p : ρ → Bool}
    (h : ∀ r, key r = k → p r = false ∧ p (f r) = false) (l : List ρ) :
    (l.map fun r => if key r = k then f r else r).filter p = l.filter p := by
  induction l with
  | nil => rfl
  | cons r l ih =>
    rw [List.map_cons, List.filter_cons, List.filter_cons, ih]
    by_cases hr : key r = k
    · rw [if_pos hr, (h r hr).1, (h r hr).2]
      rfl
    · rw [if_neg hr]

section UpdateAt
variable (t : KeyTable ρ) (k : κ) (f : ρ → ρ) (hf : ∀ r, key (f r) = key r)

lemma mem_updateAt {x : ρ} :
    x ∈ t.updateAt k f hf ↔ ∃ r ∈ t, x = if key r = k then f r else r := by
  simp only [mem_def, updateAt, List.mem_map, eq_comm]

lemma find?_updateAt (j : κ) :
    (t.updateAt k f hf).find? j = if j = k then (t.find? j).map f else t.find? j := by
  unfold find? updateAt
  rw [List.find?_map]
  have hkey : ((fun r => decide (key r = j)) ∘ fun r : ρ => if key r = k then f r else r)
      = fun r => decide (key r = j) := by
    funext r
    simp only [Function.comp_apply]
    split_ifs <;> simp [hf]
  rw [hkey]
  cases h : t.rows.find? (fun r => decide (key r = j)) with
  | none => split_ifs <;> rfl
  | some r =>
    have hr : key r = j := by simpa using List.find?_some h
    simp only [Option.map_some, hr]
    split_ifs <;> rfl

/-- A change that does nothing to the row with the key changes nothing. -/
lemma updateAt_eq_self_of (h : ∀ r ∈ t, key r = k → f r = r) : t.updateAt k f hf = t := by
  ext1
  conv_rhs => rw [← List.map_id t.rows]
  refine List.map_congr_left fun r hr => ?_
  split_ifs with hk
  · exact h r hr hk
  · rfl

lemma updateAt_eq_self (h : t.find? k = none) : t.updateAt k f hf = t :=
  updateAt_eq_self_of t k f hf fun r hr hk => absurd hk (find?_eq_none.mp h r hr)

/-- A selection that leaves out the row with the key, before and after, does not change. -/
lemma select_updateAt {p : ρ → Bool} (h : ∀ r, key r = k → p r = false ∧ p (f r) = false) :
    (t.updateAt k f hf).select p = t.select p :=
  filter_map_key h t.rows

end UpdateAt

/-! ### Putting -/

lemma mem_put {t : KeyTable ρ} {r x : ρ} : x ∈ t.put r ↔ x = r ∨ (x ∈ t ∧ key x ≠ key r) := by
  unfold put
  split_ifs with h
  · obtain ⟨y, hy, hyk⟩ := List.mem_map.mp h
    simp only [mem_def, List.mem_map]
    constructor
    · rintro ⟨z, hz, rfl⟩
      split_ifs with hzk
      · exact Or.inl rfl
      · exact Or.inr ⟨hz, hzk⟩
    · rintro (rfl | ⟨hx, hk⟩)
      · exact ⟨y, hy, if_pos hyk⟩
      · exact ⟨x, hx, if_neg hk⟩
  · simp only [mem_def, List.mem_append, List.mem_singleton]
    constructor
    · rintro (hx | rfl)
      · exact Or.inr ⟨hx, fun hk => h (List.mem_map.mpr ⟨x, hx, hk⟩)⟩
      · exact Or.inl rfl
    · rintro (rfl | ⟨hx, -⟩)
      · exact Or.inr rfl
      · exact Or.inl hx

lemma find?_put (t : KeyTable ρ) (r : ρ) (k : κ) :
    (t.put r).find? k = if key r = k then some r else t.find? k := by
  split_ifs with hk
  · exact find?_eq_some.mpr ⟨mem_put.mpr (Or.inl rfl), hk⟩
  · cases h : t.find? k with
    | some x =>
      obtain ⟨hx, rfl⟩ := find?_eq_some.mp h
      exact find?_eq_some.mpr ⟨mem_put.mpr (Or.inr ⟨hx, Ne.symm hk⟩), rfl⟩
    | none =>
      refine find?_eq_none.mpr fun x hx hxk => ?_
      rcases mem_put.mp hx with rfl | ⟨hxt, -⟩
      · exact hk hxk
      · exact find?_eq_none.mp h x hxt hxk

/-- A selection that leaves out the rows with the key of `r` does not change. -/
lemma select_put {t : KeyTable ρ} {r : ρ} {p : ρ → Bool} (h : ∀ x, key x = key r → p x = false) :
    (t.put r).select p = t.select p := by
  unfold put
  split_ifs with hr
  · exact filter_map_key (f := fun _ => r) (fun x hx => ⟨h x hx, h r rfl⟩) t.rows
  · unfold select
    rw [List.filter_append, List.filter_singleton, h r rfl]
    exact List.append_nil _

lemma find?_deleteWhere (t : KeyTable ρ) (p : ρ → Bool) (k : κ) :
    (t.deleteWhere p).find? k = (t.find? k).filter fun r => !p r := by
  cases h : (t.deleteWhere p).find? k with
  | some r =>
    obtain ⟨hr, hk⟩ := find?_eq_some.mp h
    obtain ⟨hrt, hpr⟩ := mem_deleteWhere.mp hr
    rw [find?_eq_some.mpr ⟨hrt, hk⟩]
    simp [Option.filter, hpr]
  | none =>
    cases h' : t.find? k with
    | none => rfl
    | some r =>
      obtain ⟨hr, hk⟩ := find?_eq_some.mp h'
      have hpr : p r = true := by
        by_contra hpr
        exact find?_eq_none.mp h r (mem_deleteWhere.mpr ⟨hr, by simpa using hpr⟩) hk
      simp [Option.filter, hpr]

lemma find?_deleteWhere_of {t : KeyTable ρ} {p : ρ → Bool} {k : κ} (h : ∀ r, key r = k → p r = false) :
    (t.deleteWhere p).find? k = t.find? k :=
  find?_congr_key fun r hr => by rw [mem_deleteWhere, h r hr, and_iff_left rfl]

/-! ### Rows of another type -/

section Map
variable {ρ' : Type*} [Keyed ρ' κ] (f : ρ → ρ') (hf : ∀ r, key (f r) = key r)

/-- The rows turned into rows of another type, with the keys they have. -/
def map (t : KeyTable ρ) : KeyTable ρ' :=
  ⟨t.rows.map f, by
    have hkeys : (t.rows.map f).map key = t.rows.map key := by
      rw [List.map_map]
      exact List.map_congr_left fun r _ => hf r
    exact hkeys ▸ t.nodup⟩

lemma find?_map (t : KeyTable ρ) (k : κ) : (t.map f hf).find? k = (t.find? k).map f := by
  unfold find? map
  rw [List.find?_map]
  congr 2
  funext r
  rw [Function.comp_apply, hf]

end Map

section MapKeys
variable {ρ' κ' : Type*} [Keyed ρ' κ'] (f : ρ → ρ') (g : κ → κ') (hg : Function.Injective g)
  (hf : ∀ r, key (f r) = g (key r))

/-- The rows turned into rows of another type, with keys of another type. -/
def mapKeys (t : KeyTable ρ) : KeyTable ρ' :=
  ⟨t.rows.map f, by
    have hkeys : (t.rows.map f).map key = (t.rows.map key).map g := by
      rw [List.map_map, List.map_map]
      exact List.map_congr_left fun r _ => hf r
    exact hkeys ▸ t.nodup.map hg⟩

lemma find?_mapKeys [DecidableEq κ'] (t : KeyTable ρ) (k : κ) :
    (t.mapKeys f g hg hf).find? (g k) = (t.find? k).map f := by
  unfold find? mapKeys
  rw [List.find?_map]
  congr 2
  funext r
  refine decide_eq_decide.mpr ?_
  rw [hf, hg.eq_iff]

end MapKeys

/-! ### Giving a row a new key -/

section Rekey
variable {t t' : KeyTable ρ} {k k' : κ} {f : ρ → ρ} {hf : ∀ r, key (f r) = k'}

lemma rekey?_eq_some : t.rekey? k k' f hf = some t' ↔
    (k' ≠ k → t.find? k' = none) ∧ t'.rows = t.rows.map fun r => if key r = k then f r else r := by
  have hnone : (k' ≠ k ∧ k' ∈ t.rows.map key) ↔ ¬ (k' ≠ k → t.find? k' = none) := by
    rw [Classical.not_imp]
    refine and_congr_right fun _ => ?_
    rw [List.mem_map, ← ne_eq, Option.ne_none_iff_isSome, find?_isSome]
    rfl
  unfold rekey?
  split_ifs with h
  · simp only [false_iff, not_and]
    exact fun h' => absurd h' (hnone.mp h)
  · simp only [Option.some.injEq]
    constructor
    · rintro rfl
      exact ⟨not_not.mp fun hc => h (hnone.mpr hc), rfl⟩
    · rintro ⟨-, hrows⟩
      exact ext hrows.symm

lemma rekey?_isSome (hfree : k' ≠ k → t.find? k' = none) : ∃ t', t.rekey? k k' f hf = some t' := by
  unfold rekey?
  rw [dif_neg]
  · exact ⟨_, rfl⟩
  · rintro ⟨hne, hmem⟩
    obtain ⟨x, hx, hkey⟩ := List.mem_map.mp hmem
    exact find?_eq_none.mp (hfree hne) x hx hkey

lemma mem_rekey? (h : t.rekey? k k' f hf = some t') {x : ρ} :
    x ∈ t' ↔ ∃ r ∈ t, x = if key r = k then f r else r := by
  rw [mem_def, (rekey?_eq_some.mp h).2]
  simp only [mem_def, List.mem_map, eq_comm]

/-- The row that gets a new key leaves the counts it was in and joins those of its new form. -/
lemma count_rekey? (h : t.rekey? k k' f hf = some t') {r : ρ} (hr : r ∈ t) (hk : key r = k)
    (p : ρ → Bool) :
    t'.count p + (if p r then 1 else 0) = t.count p + if p (f r) then 1 else 0 := by
  have hq : ∀ x ∈ t, decide (key x = k) = true ↔ key x = key r := fun x _ => by simp [hk]
  have hsel : t.rows.filter (fun x => decide (key x = k)) = [r] := select_key hr hq
  unfold count
  rw [(rekey?_eq_some.mp h).2, List.countP_map,
    List.countP_eq_countP_filter_add t.rows p (fun x => decide (key x = k)),
    List.countP_eq_countP_filter_add t.rows _ (fun x => decide (key x = k)), hsel]
  have hrest : (t.rows.filter fun x => !decide (key x = k)).countP
        (p ∘ fun x => if key x = k then f x else x)
      = (t.rows.filter fun x => !decide (key x = k)).countP p := by
    apply List.countP_congr
    intro x hx
    have hxk : key x ≠ k := by simpa using (List.mem_filter.mp hx).2
    simp [hxk]
  rw [hrest]
  simp only [List.countP_cons, List.countP_nil, Function.comp_apply, hk, if_true]
  omega

end Rekey

end KeyTable
