import Mathlib.Data.List.Basic
import Mathlib.Data.List.GetD
import Mathlib.Algebra.BigOperators.Group.Finset.Basic
import Mathlib.Algebra.Order.Floor.Div
import Mathlib.Algebra.Order.Group.Nat
import Mathlib.Order.Interval.Finset.Nat
import Mathlib.Tactic.Linarith
import Mathlib.Tactic.Ring

/-!
# Flat files and their chunks

A flat file is a list of values that grows by filling with a default value `z`. The same content
can be kept in chunks of at most `k` values, where a chunk may be short or empty and what it
lacks stands for `z`. This file relates the two: how a window of the flat file falls into
chunks, what overwriting a part of a chunk or cutting it does to the values it stands for,
how the pieces of a window add up to the window, and how much chunks hold that end within the file.
-/

/-! ### Flat files -/

namespace Flat

variable {β : Type*}

/-- The `size` values from `offset` on, as far as the file has them. -/
def read (f : List β) (offset size : ℕ) : List β := (f.drop offset).take size

lemma length_read {f : List β} {offset size : ℕ} (h : offset + size ≤ f.length) :
    (read f offset size).length = size := by
  rw [read, List.length_take, List.length_drop]
  omega

/-- Cut the file to `n` values, or fill it up to `n` with `z`. -/
def resize (z : β) (f : List β) (n : ℕ) : List β := f.take n ++ List.replicate (n - f.length) z

/-- Overwrite the values from `offset` on by `data`, filling a gap before them with `z`. Writing
nothing changes nothing. -/
def write (z : β) (f data : List β) (offset : ℕ) : List β :=
  if data = [] then f
  else f.take offset ++ List.replicate (offset - f.length) z ++ data ++ f.drop (offset + data.length)

@[simp] lemma length_resize (z : β) (f : List β) (n : ℕ) : (resize z f n).length = n := by
  simp only [resize, List.length_append, List.length_take, List.length_replicate]; omega

lemma length_write (z : β) (f : List β) {data : List β} (h : data ≠ []) (offset : ℕ) :
    (write z f data offset).length = max f.length (offset + data.length) := by
  simp only [write, h, if_false, List.length_append, List.length_take, List.length_replicate,
    List.length_drop]
  omega

lemma getD_resize (z : β) (f : List β) (n x : ℕ) :
    (resize z f n).getD x z = if x < n then f.getD x z else z := by
  simp only [resize, List.getD_eq_getElem?_getD, List.getElem?_append, List.length_take,
    List.getElem?_take, List.getElem?_replicate]
  split_ifs with h1 h2 h3 h4 <;> try omega
  · rfl
  · rw [List.getElem?_eq_none (by omega)]; rfl
  · rfl

lemma getD_write (z : β) (f : List β) {data : List β} (h : data ≠ []) (offset x : ℕ) :
    (write z f data offset).getD x z
      = if offset ≤ x ∧ x < offset + data.length then data.getD (x - offset) z
        else f.getD x z := by
  have hlen : (f.take offset ++ List.replicate (offset - f.length) z).length = offset := by
    simp only [List.length_append, List.length_take, List.length_replicate]; omega
  have hpre : ∀ y, y < offset →
      (f.take offset ++ List.replicate (offset - f.length) z)[y]?.getD z = f[y]?.getD z := by
    intro y hy
    have := getD_resize z f offset y
    rwa [if_pos hy, List.getD_eq_getElem?_getD, List.getD_eq_getElem?_getD] at this
  simp only [write, h, if_false, List.getD_eq_getElem?_getD, List.append_assoc]
  rw [← List.append_assoc, List.getElem?_append, hlen]
  split_ifs with h1 h2 h2
  · omega
  · exact hpre x h1
  · rw [List.getElem?_append_left (by omega)]
  · rw [List.getElem?_append_right (by omega), List.getElem?_drop]
    congr 2
    omega

/-- The file has the values `l` from `offset` on. -/
def Carries (f : List β) (offset : ℕ) (l : List β) : Prop :=
  ∀ x < l.length, f[offset + x]? = l[x]?

/-- What a file carries is read there. -/
lemma Carries.read_eq {f l : List β} {offset : ℕ} (h : Carries f offset l) :
    read f offset l.length = l := by
  apply List.ext_getElem?
  intro x
  rw [read, List.getElem?_take, List.getElem?_drop]
  split_ifs with hx
  · exact h x hx
  · exact (List.getElem?_eq_none (Nat.le_of_not_lt hx)).symm

/-- What has been written is there, every part of it. -/
lemma carries_write (z : β) (f data : List β) {offset skip size : ℕ} (h : skip + size ≤ data.length) :
    Carries (write z f data offset) (offset + skip) (read data skip size) := by
  intro x hx
  have hlen : x < size := hx.trans_le (List.length_take_le _ _)
  have hdata : data ≠ [] := List.ne_nil_of_length_pos (by omega)
  have hpre : (f.take offset ++ List.replicate (offset - f.length) z).length = offset := by
    simp only [List.length_append, List.length_take, List.length_replicate]; omega
  rw [write, if_neg hdata, List.append_assoc _ data, List.getElem?_append_right (by omega), hpre,
    List.getElem?_append_left (by omega), read, List.getElem?_take_of_lt hlen, List.getElem?_drop]
  congr 1
  omega

/-- Writing to other places leaves it there. -/
lemma Carries.write {f l : List β} {offset : ℕ} (h : Carries f offset l) (z : β) {data : List β}
    {start : ℕ} (hapart : ∀ x, offset ≤ x → x < offset + l.length →
      ¬ (start ≤ x ∧ x < start + data.length)) :
    Carries (Flat.write z f data start) offset l := by
  intro x hx
  by_cases hdata : data = []
  · rw [Flat.write, if_pos hdata]
    exact h x hx
  · have hf : offset + x < f.length := by
      by_contra hout
      have hnone := h x hx
      rw [List.getElem?_eq_none (Nat.le_of_not_lt hout), List.getElem?_eq_getElem hx] at hnone
      cases hnone
    have hlen : offset + x < (Flat.write z f data start).length := by
      rw [length_write z f hdata]
      exact lt_max_of_lt_left hf
    have hget := getD_write z f hdata start (offset + x)
    rw [if_neg (hapart _ (Nat.le_add_right _ _) (by omega)), List.getD_eq_getElem _ _ hlen,
      List.getD_eq_getElem _ _ hf] at hget
    rw [← h x hx, List.getElem?_eq_getElem hlen, List.getElem?_eq_getElem hf, hget]

/-! ### Segments of a function -/

/-- The values of `f` on `[a, b)`. -/
def segment (f : ℕ → β) (a b : ℕ) : List β := (List.range (b - a)).map fun i => f (a + i)

namespace segment

variable {f g : ℕ → β} {a b c : ℕ}

@[simp] lemma length : (segment f a b).length = b - a := by simp [segment]

@[simp] lemma self : segment f a a = [] := by simp [segment]

lemma append (hab : a ≤ b) (hbc : b ≤ c) : segment f a b ++ segment f b c = segment f a c := by
  unfold segment
  rw [show c - a = (b - a) + (c - b) by omega, List.range_add, List.map_append, List.map_map]
  congr 1
  refine List.map_congr_left fun i _ => ?_
  rw [Function.comp_apply, show a + (b - a + i) = b + i by omega]

lemma congr (h : ∀ x, a ≤ x → x < b → f x = g x) : segment f a b = segment g a b := by
  unfold segment
  refine List.map_congr_left fun i hi => ?_
  have := List.mem_range.mp hi
  exact h (a + i) (by omega) (by omega)

/-- A segment seen from `k` on. -/
lemma shift (k : ℕ) : segment f (k + a) (k + b) = segment (fun j => f (k + j)) a b := by
  unfold segment
  rw [show k + b - (k + a) = b - a by omega]
  refine List.map_congr_left fun i _ => ?_
  rw [Nat.add_assoc]

lemma getElem?_eq (i : ℕ) : (segment f a b)[i]? = if i < b - a then some (f (a + i)) else none := by
  unfold segment
  rw [List.getElem?_map]
  split_ifs with h
  · rw [List.getElem?_range h]; rfl
  · rw [List.getElem?_eq_none (by simpa using h)]; rfl

lemma getD_list (z : β) (l : List β) : segment (fun x => l.getD x z) a b
    = (l.drop (min a l.length)).take (min b l.length - min a l.length)
      ++ List.replicate ((b - a) - (min b l.length - min a l.length)) z := by
  apply List.ext_getElem?
  intro i
  rw [getElem?_eq, List.getElem?_append, List.length_take, List.length_drop, List.getElem?_take,
    List.getElem?_drop, List.getElem?_replicate, List.getD_eq_getElem?_getD]
  by_cases hl : a + i < l.length
  · rw [show min a l.length = a by omega, List.getElem?_eq_getElem hl]
    split_ifs <;> first | rfl | omega
  · rw [List.getElem?_eq_none (by omega : l.length ≤ a + i)]
    split_ifs <;> first | rfl | omega

/-- A segment within a list is a part of the list. -/
lemma read_eq (z : β) (l : List β) (offset size : ℕ) :
    read l offset size
      = segment (fun x => l.getD x z) (min offset l.length) (min (offset + size) l.length) := by
  rw [getD_list]
  unfold read
  have h0 : min (offset + size) l.length - min offset l.length
      - (min (min (offset + size) l.length) l.length - min (min offset l.length) l.length) = 0 := by
    omega
  rw [h0, List.replicate_zero, List.append_nil]
  by_cases h : offset ≤ l.length
  · rw [show min (min offset l.length) l.length = offset by omega]
    conv_lhs => rw [← List.take_length (l := l.drop offset), List.take_take]
    rw [List.length_drop]
    congr 1
    omega
  · rw [show min (min offset l.length) l.length = l.length by omega, List.drop_length,
      List.drop_eq_nil_of_le (by omega)]
    simp

end segment

end Flat

/-! ### Chunks -/

namespace Chunks

open Flat

variable {β : Type*}

/-- The value that the chunks `c` of size `k` hold at position `x`. -/
def value (z : β) (c : ℕ → List β) (k x : ℕ) : β := (c (x / k)).getD (x % k) z

lemma value_mul_add (z : β) (c : ℕ → List β) {k i j : ℕ} (hj : j < k) :
    value z c k (i * k + j) = (c i).getD j z := by
  have hk : 0 < k := by omega
  unfold value
  rw [Nat.add_comm, Nat.mul_comm, Nat.add_mul_div_left _ _ hk, Nat.div_eq_of_lt hj, Nat.zero_add,
    Nat.add_mul_mod_self_left, Nat.mod_eq_of_lt hj]

/-- The values of chunk `i` between its positions `lo` and `hi`. -/
lemma segment_value (z : β) (c : ℕ → List β) {k i lo hi : ℕ} (hhi : hi ≤ k) :
    segment (value z c k) (i * k + lo) (i * k + hi) = segment (fun j => (c i).getD j z) lo hi := by
  rw [segment.shift]
  exact segment.congr fun j _ hj => value_mul_add z c (by omega)

/-! #### Windows

The window `[a, b)` meets the chunks `a / k` to `(b - 1) / k`; `edge c` is the first position of
the window that does not come before chunk `c`. -/

def edge (a b k c : ℕ) : ℕ := min b (max a (c * k))

section Edge
variable {a b k c : ℕ}

lemma edge_first (hab : a < b) : edge a b k (a / k) = a := by
  have := Nat.div_mul_le_self a k
  unfold edge; omega

lemma edge_last (hk : 0 < k) (hab : a < b) : edge a b k ((b - 1) / k + 1) = b := by
  have := Nat.lt_div_mul_add (a := b - 1) hk
  unfold edge
  rw [Nat.add_mul, Nat.one_mul]
  omega

lemma edge_le_succ : edge a b k c ≤ edge a b k (c + 1) := by
  unfold edge
  rw [Nat.add_mul, Nat.one_mul]
  omega

lemma le_edge (hab : a ≤ b) : a ≤ edge a b k c := by unfold edge; omega

lemma edge_le : edge a b k c ≤ b := by unfold edge; omega

/-- Where chunk `c` of the window begins, counted from the chunk's own start. -/
lemma edge_eq_lo (hk : 0 < k) (hab : a < b) (h1 : a / k ≤ c) (h2 : c ≤ (b - 1) / k) :
    edge a b k c = c * k + min (a - c * k) k := by
  have hc : c * k ≤ b - 1 := (Nat.le_div_iff_mul_le hk).mp h2
  have ha : a < (c + 1) * k := (Nat.div_lt_iff_lt_mul hk).mp (Nat.lt_succ_of_le h1)
  rw [Nat.add_mul, Nat.one_mul] at ha
  unfold edge
  omega

/-- Where chunk `c` of the window ends, counted from the chunk's own start. -/
lemma edge_succ_eq_hi (hk : 0 < k) (h1 : a / k ≤ c) (h2 : c ≤ (b - 1) / k) :
    edge a b k (c + 1) = c * k + min (b - c * k) k := by
  have hc : c * k ≤ b - 1 := (Nat.le_div_iff_mul_le hk).mp h2
  have ha : a < (c + 1) * k := (Nat.div_lt_iff_lt_mul hk).mp (Nat.lt_succ_of_le h1)
  rw [Nat.add_mul, Nat.one_mul] at ha
  unfold edge
  rw [Nat.add_mul, Nat.one_mul]
  omega

/-- Every chunk of the window has a part of it. -/
lemma edge_lt_succ (hk : 0 < k) (hab : a < b) (h1 : a / k ≤ c) (h2 : c ≤ (b - 1) / k) :
    edge a b k c < edge a b k (c + 1) := by
  have hc : c * k ≤ b - 1 := (Nat.le_div_iff_mul_le hk).mp h2
  have ha : a < (c + 1) * k := (Nat.div_lt_iff_lt_mul hk).mp (Nat.lt_succ_of_le h1)
  rw [Nat.add_mul, Nat.one_mul] at ha
  unfold edge
  rw [Nat.add_mul, Nat.one_mul]
  omega

end Edge

/-! #### Overwriting and cutting one chunk -/

/-- `old` with the positions from `lo` on overwritten by `piece`; a gap is filled with `z`, and
the positions from `lo + piece.length` on keep their values. -/
def overwrite (z : β) (old piece : List β) (lo : ℕ) : List β :=
  old.take lo ++ List.replicate (lo - old.length) z ++ piece ++ old.drop (lo + piece.length)

/-- Overwriting by way of first growing the chunk to `lo`. -/
lemma overwrite_grown (z : β) (old piece : List β) (lo : ℕ) {m : ℕ}
    (hm : m = min (lo + piece.length) (old.length + (lo - old.length))) :
    (old ++ List.replicate (lo - old.length) z).take lo ++ piece
        ++ (old ++ List.replicate (lo - old.length) z).drop m
      = overwrite z old piece lo := by
  have htake : (old ++ List.replicate (lo - old.length) z).take lo
      = old.take lo ++ List.replicate (lo - old.length) z := by
    rw [List.take_append, List.take_replicate, Nat.min_self]
  have hdrop : (old ++ List.replicate (lo - old.length) z).drop m
      = old.drop (lo + piece.length) := by
    rw [List.drop_append, List.drop_replicate]
    by_cases h : lo + piece.length ≤ old.length
    · rw [show m = lo + piece.length by omega,
        show lo - old.length - (lo + piece.length - old.length) = 0 by omega,
        List.replicate_zero, List.append_nil]
    · rw [List.drop_eq_nil_of_le (by omega), List.drop_eq_nil_of_le (by omega),
        show lo - old.length - (m - old.length) = 0 by omega]
      rfl
  rw [htake, hdrop, overwrite]

lemma length_overwrite (z : β) (old piece : List β) (lo : ℕ) :
    (overwrite z old piece lo).length = max old.length (lo + piece.length) := by
  simp only [overwrite, List.length_append, List.length_take, List.length_replicate,
    List.length_drop]
  omega

lemma getD_overwrite (z : β) (old : List β) {piece : List β} (h : piece ≠ []) (lo j : ℕ) :
    (overwrite z old piece lo).getD j z
      = if lo ≤ j ∧ j < lo + piece.length then piece.getD (j - lo) z else old.getD j z := by
  have := Flat.getD_write z old h lo j
  rwa [Flat.write, if_neg h] at this

lemma getD_take (z : β) (l : List β) (m j : ℕ) :
    (l.take m).getD j z = if j < m then l.getD j z else z := by
  simp only [List.getD_eq_getElem?_getD, List.getElem?_take]
  split_ifs <;> rfl

/-! ### How much chunks hold -/

section Bounds

variable {ι : Type*} {rows : List ι} {number length : ι → ℕ} {k size : ℕ}

/-- Chunks that begin within a file, each kept once, are no more than the file has. -/
lemma length_le_ceilDiv (hk : 0 < k) (hnd : (rows.map number).Nodup)
    (h : ∀ r ∈ rows, number r * k < size) : rows.length ≤ size ⌈/⌉ k := by
  have hsub : rows.map number ⊆ List.range (size ⌈/⌉ k) := by
    intro c hc
    obtain ⟨r, hr, rfl⟩ := List.mem_map.mp hc
    rw [List.mem_range, ← not_le, ceilDiv_le_iff_le_mul hk, not_le, mul_comm]
    exact h r hr
  simpa using (List.subperm_of_subset hnd hsub).length_le

/-- Chunks of different numbers lie in different places. -/
lemma disjoint_Ico {c c' n n' : ℕ} (hn : n ≤ k) (hn' : n' ≤ k) (hne : c ≠ c') :
    Disjoint (Finset.Ico (c * k) (c * k + n)) (Finset.Ico (c' * k) (c' * k + n')) := by
  rw [Finset.disjoint_left]
  intro x hx hx'
  rw [Finset.mem_Ico] at hx hx'
  rcases Nat.lt_or_gt_of_ne hne with hlt | hlt
  · have hmul := Nat.mul_le_mul_right k (Nat.succ_le_of_lt hlt)
    rw [Nat.succ_mul] at hmul
    omega
  · have hmul := Nat.mul_le_mul_right k (Nat.succ_le_of_lt hlt)
    rw [Nat.succ_mul] at hmul
    omega

/-- Chunks that end within a file, each kept once, hold no more than the file. -/
lemma sum_length_le (hnd : (rows.map number).Nodup)
    (h : ∀ r ∈ rows, length r ≤ k ∧ number r * k + length r ≤ size) :
    (rows.map length).sum ≤ size := by
  classical
  let place : ι → Finset ℕ := fun r => Finset.Ico (number r * k) (number r * k + length r)
  have hdisj : (rows.toFinset : Set ι).PairwiseDisjoint place := by
    intro r hr r' hr' hne
    rw [List.coe_toFinset] at hr hr'
    exact disjoint_Ico (h r hr).1 (h r' hr').1 fun heq =>
      hne (List.inj_on_of_nodup_map hnd hr hr' heq)
  have hsub : rows.toFinset.biUnion place ⊆ Finset.range size := by
    intro x hx
    obtain ⟨r, hr, hx⟩ := Finset.mem_biUnion.mp hx
    exact Finset.mem_range.mpr
      ((Finset.mem_Ico.mp hx).2.trans_le (h r (List.mem_toFinset.mp hr)).2)
  have hcard := Finset.card_le_card hsub
  rw [Finset.card_biUnion hdisj, Finset.card_range] at hcard
  simpa [place, List.sum_toFinset _ hnd.of_map] using hcard

end Bounds

end Chunks
