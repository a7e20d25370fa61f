import SqliteFs.Python.Overwriting
import SqliteFs.Filesystem.Resolution

/-!
# When a transfer goes through

Reading raises for chunks without a size, for a chunk number that is no integer of SQLite's, and when
the pieces that it has put together are not as long as they should be. The latter does not happen
for chunks of a positive size. Writing raises for chunks without a size, and for a number that is no
integer of SQLite's.
-/

namespace SqliteFs

open Txn
open SqliteFs.Filesystem (bind_eq_ok)

namespace Python

/-! ### Reading -/

section Reading
variable {d : Db} {i : ℕ} {chunkSize offset end_ size fileSize : ℤ} {present : List (ℤ × Bytes)}

/-- What the rounds of `readRange` put together. -/
def pieces (d : Db) (i : ℕ) (chunkSize offset end_ : ℤ) : Bytes :=
  let firstChunk := offset.fdiv chunkSize
  let lastChunk := (end_ - 1).fdiv chunkSize
  ((Blobs.range firstChunk (lastChunk + 1)).map
    (Blobs.readChunk (Blobs.selectChunks d i firstChunk lastChunk) offset end_ chunkSize)).flatten

lemma readRange_eq_ok {bytes : Bytes} :
    Blobs.readRange d i offset size fileSize chunkSize = .ok bytes ↔
      (fileSize ≤ offset ∨ size = 0) ∧ bytes = [] ∨
      ¬ (fileSize ≤ offset ∨ size = 0) ∧ chunkSize ≠ 0 ∧
        (∀ n ∈ [offset.fdiv chunkSize, (min (offset + size) fileSize - 1).fdiv chunkSize],
          Storable n) ∧
        ((pieces d i chunkSize offset (min (offset + size) fileSize)).length : ℤ)
          = min (offset + size) fileSize - offset ∧
        bytes = pieces d i chunkSize offset (min (offset + size) fileSize) := by
  unfold Blobs.readRange
  split_ifs with hempty
  · simp only [hempty, not_true, true_and, false_and, or_false, Except.ok.injEq]
    exact eq_comm
  · simp only [hempty, not_false_iff, true_and, false_and, false_or]
    constructor
    · intro h
      obtain ⟨first, hfirst, h⟩ := bind_eq_ok.mp h
      obtain ⟨last, hlast, h⟩ := bind_eq_ok.mp h
      obtain ⟨_, hst, h⟩ := bind_eq_ok.mp h
      obtain ⟨_, hlen, h⟩ := bind_eq_ok.mp h
      obtain ⟨hne, rfl⟩ := floorDiv_eq_ok.mp hfirst
      obtain ⟨-, rfl⟩ := floorDiv_eq_ok.mp hlast
      exact ⟨hne, bindParams_eq_ok.mp hst, check_eq_ok.mp hlen, (Except.ok.inj h).symm⟩
    · rintro ⟨hne, hst, hlen, rfl⟩
      refine bind_eq_ok.mpr ⟨_, floorDiv_eq_ok.mpr ⟨hne, rfl⟩, ?_⟩
      refine bind_eq_ok.mpr ⟨_, floorDiv_eq_ok.mpr ⟨hne, rfl⟩, ?_⟩
      refine bind_eq_ok.mpr ⟨⟨⟩, bindParams_eq_ok.mpr hst, ?_⟩
      exact bind_eq_ok.mpr ⟨⟨⟩, check_eq_ok.mpr hlen, rfl⟩

/-- The place in the read range that is closest to the beginning of chunk `c`. -/
def edge (offset end_ chunkSize c : ℤ) : ℤ := min (max offset (c * chunkSize)) end_

lemma length_slice_le {data : Bytes} {lo hi : ℤ} (hlo : 0 ≤ lo) (hle : lo ≤ hi) :
    ((Blobs.slice data lo hi).length : ℤ) ≤ hi - lo := by
  unfold Blobs.slice Blobs.index
  rw [if_neg (by omega), if_neg (by omega), List.length_drop, List.length_take]
  omega

/-- A round contributes what lies between two edges. -/
lemma length_readChunk (hk : 0 < chunkSize) (hlt : offset < end_) {c : ℤ}
    (h1 : offset.fdiv chunkSize ≤ c) (h2 : c ≤ (end_ - 1).fdiv chunkSize) :
    ((Blobs.readChunk present offset end_ chunkSize c).length : ℤ)
      = edge offset end_ chunkSize (c + 1) - edge offset end_ chunkSize c := by
  rw [Int.fdiv_eq_ediv_of_nonneg _ hk.le] at h1 h2
  have hbegin : c * chunkSize ≤ end_ - 1 := (Int.le_ediv_iff_mul_le hk).mp h2
  have hend : offset < (c + 1) * chunkSize := (Int.ediv_lt_iff_lt_mul hk).mp (by omega)
  rw [add_one_mul] at hend
  have hedges : edge offset end_ chunkSize (c + 1) - edge offset end_ chunkSize c =
      min chunkSize (end_ - c * chunkSize) - max 0 (offset - c * chunkSize) := by
    unfold edge
    rw [add_one_mul]
    omega
  have hle : max 0 (offset - c * chunkSize) ≤ min chunkSize (end_ - c * chunkSize) := by omega
  rw [hedges]
  unfold Blobs.readChunk
  dsimp only
  have hslice : ((Blobs.slice ((present.lookup c).getD []) (max 0 (offset - c * chunkSize))
      (min chunkSize (end_ - c * chunkSize))).length : ℤ) ≤ _ :=
    length_slice_le (le_max_left 0 _) hle
  split_ifs with hshort
  · rw [List.length_append, Blobs.zeros, List.length_replicate]
    omega
  · omega

lemma length_readChunks (hk : 0 < chunkSize) (hlt : offset < end_) (m : ℕ)
    (hm : offset.fdiv chunkSize + m ≤ (end_ - 1).fdiv chunkSize + 1) :
    ((((List.range m).map fun (k : ℕ) => offset.fdiv chunkSize + k).map
        (Blobs.readChunk present offset end_ chunkSize)).flatten.length : ℤ)
      = edge offset end_ chunkSize (offset.fdiv chunkSize + m)
        - edge offset end_ chunkSize (offset.fdiv chunkSize) := by
  induction m with
  | zero => simp
  | succ m ih =>
    specialize ih (by omega)
    have hround : ((Blobs.readChunk present offset end_ chunkSize
        (offset.fdiv chunkSize + m)).length : ℤ) = _ :=
      length_readChunk hk hlt (by omega) (by omega)
    rw [List.range_succ, List.map_append, List.map_append, List.flatten_append, List.length_append]
    simp only [List.map_cons, List.map_nil, List.flatten_cons, List.flatten_nil, List.append_nil]
    push_cast
    rw [← add_assoc]
    omega

/-- Chunks of a positive size yield as many bytes as were asked for. -/
lemma length_pieces_of_pos (hk : 0 < chunkSize) (hlt : offset < end_) :
    ((pieces d i chunkSize offset end_).length : ℤ) = end_ - offset := by
  have hdiv : offset.fdiv chunkSize ≤ (end_ - 1).fdiv chunkSize := by
    rw [Int.fdiv_eq_ediv_of_nonneg _ hk.le, Int.fdiv_eq_ediv_of_nonneg _ hk.le]
    exact Int.ediv_le_ediv hk (by omega)
  obtain ⟨m, hm⟩ : ∃ m : ℕ, (end_ - 1).fdiv chunkSize + 1 - offset.fdiv chunkSize = m :=
    Int.eq_ofNat_of_zero_le (by omega)
  unfold pieces Blobs.range
  dsimp only
  rw [hm, Int.toNat_natCast, length_readChunks hk hlt m (by omega)]
  have hfirst : edge offset end_ chunkSize (offset.fdiv chunkSize) = offset := by
    have hle : offset.fdiv chunkSize * chunkSize ≤ offset := by
      rw [Int.fdiv_eq_ediv_of_nonneg _ hk.le]
      exact Int.ediv_mul_le _ hk.ne'
    unfold edge
    omega
  have hlast : edge offset end_ chunkSize (offset.fdiv chunkSize + m) = end_ := by
    have hle : end_ - 1 < ((end_ - 1).fdiv chunkSize + 1) * chunkSize := by
      rw [Int.fdiv_eq_ediv_of_nonneg _ hk.le]
      exact Int.lt_ediv_add_one_mul_self _ hk
    rw [show offset.fdiv chunkSize + m = (end_ - 1).fdiv chunkSize + 1 by omega]
    unfold edge
    omega
  rw [hfirst, hlast]

/-- A chunk of a negative size yields what it holds beyond that many bytes. -/
lemma length_readChunk_of_neg {k c : ℤ} (hk : 0 < k) (hbegin : c * k ≤ -offset)
    (hend : -(end_ - 1) < c * k + k) :
    (Blobs.readChunk present offset end_ (-k) c).length
      = ((((present.lookup c).getD []).length : ℤ) - k).toNat := by
  have hlo : max 0 (offset - c * -k) = 0 := by
    rw [mul_neg]
    omega
  have hhi : min (-k) (end_ - c * -k) = -k := by
    rw [mul_neg]
    omega
  unfold Blobs.readChunk
  dsimp only
  rw [hlo, hhi]
  have hlen : (Blobs.slice ((present.lookup c).getD []) 0 (-k)).length
      = ((((present.lookup c).getD []).length : ℤ) - k).toNat := by
    unfold Blobs.slice
    rw [index_neg _ hk, Blobs.index, if_neg (by omega), List.length_drop, List.length_take]
    omega
  rw [if_neg (by omega), hlen]

lemma length_pieces_of_neg (hk : chunkSize < 0) (hlt : offset < end_) :
    ((pieces d i chunkSize offset end_).length : ℤ) = end_ - offset ↔
      offset.fdiv chunkSize = (end_ - 1).fdiv chunkSize ∧
        ∃ r, d.blobs.find? (i, offset.fdiv chunkSize) = some r ∧
          r.data.length + chunkSize = end_ - offset := by
  obtain ⟨k, hk', rfl⟩ : ∃ k : ℤ, 0 < k ∧ chunkSize = -k := ⟨-chunkSize, by omega, by omega⟩
  obtain ⟨hbegin, -⟩ := fdiv_neg_bounds (a := offset) hk'
  obtain ⟨-, hend⟩ := fdiv_neg_bounds (a := end_ - 1) hk'
  unfold pieces
  dsimp only
  by_cases heq : offset.fdiv (-k) = (end_ - 1).fdiv (-k)
  · rw [← heq] at hend ⊢
    generalize offset.fdiv (-k) = c at *
    have hrange : Blobs.range c (c + 1) = [c] := by
      unfold Blobs.range
      rw [show (c + 1 - c).toNat = 1 by omega]
      simp
    rw [hrange, List.map_singleton, List.flatten_singleton, length_readChunk_of_neg hk' hbegin hend,
      lookup_selectChunks le_rfl le_rfl]
    simp only [true_and]
    cases hc : d.blobs.find? (i, c) with
    | none =>
      simp only [Option.map_none, Option.getD_none, List.length_nil, reduceCtorEq, false_and,
        exists_false, iff_false]
      omega
    | some r =>
      simp only [Option.map_some, Option.getD_some, Option.some.injEq, exists_eq_left']
      omega
  · have hlast : (end_ - 1).fdiv (-k) < offset.fdiv (-k) := by
      refine lt_of_le_of_ne ?_ (Ne.symm heq)
      rw [← Int.neg_fdiv_neg, ← Int.neg_fdiv_neg (a := offset), neg_neg,
        Int.fdiv_eq_ediv_of_nonneg _ hk'.le, Int.fdiv_eq_ediv_of_nonneg _ hk'.le]
      exact Int.ediv_le_ediv hk' (by omega)
    have hrange : Blobs.range (offset.fdiv (-k)) ((end_ - 1).fdiv (-k) + 1) = [] := by
      unfold Blobs.range
      rw [show ((end_ - 1).fdiv (-k) + 1 - offset.fdiv (-k)).toNat = 0 by omega]
      rfl
    rw [hrange]
    refine iff_of_false ?_ fun h => heq h.1
    rw [List.map_nil, List.flatten_nil, List.length_nil]
    omega

/-- Reading goes through. From chunks of a negative size, it does so only within one chunk, and if
that holds as many bytes beyond that size as are asked for. -/
def Readable (d : Db) (i : ℕ) (chunkSize offset size fileSize : ℤ) : Prop :=
  fileSize ≤ offset ∨ size = 0 ∨
    0 < size ∧ chunkSize ≠ 0 ∧
      (∀ n ∈ [offset.fdiv chunkSize, (min (offset + size) fileSize - 1).fdiv chunkSize],
        Storable n) ∧
      (chunkSize < 0 → offset.fdiv chunkSize = (min (offset + size) fileSize - 1).fdiv chunkSize ∧
        ∃ r, d.blobs.find? (i, offset.fdiv chunkSize) = some r ∧
          r.data.length + chunkSize = min (offset + size) fileSize - offset)

lemma readRange_isOk :
    (∃ bytes, Blobs.readRange d i offset size fileSize chunkSize = .ok bytes) ↔
      Readable d i chunkSize offset size fileSize := by
  simp only [readRange_eq_ok]
  unfold Readable
  by_cases hempty : fileSize ≤ offset ∨ size = 0
  · exact iff_of_true ⟨[], Or.inl ⟨hempty, rfl⟩⟩ (or_assoc.mp (Or.inl hempty))
  · rw [← or_assoc, or_iff_right hempty]
    simp only [hempty, false_and, false_or, not_false_iff, true_and]
    by_cases hsize : 0 < size
    · have hlt : offset < min (offset + size) fileSize := by omega
      rw [and_iff_right hsize]
      constructor
      · rintro ⟨bytes, hne, hst, hlen, -⟩
        exact ⟨hne, hst, fun hneg => (length_pieces_of_neg hneg hlt).mp hlen⟩
      · rintro ⟨hne, hst, hneg⟩
        refine ⟨_, hne, hst, ?_, rfl⟩
        rcases lt_or_gt_of_ne hne with hk | hk
        · exact (length_pieces_of_neg hk hlt).mpr (hneg hk)
        · exact length_pieces_of_pos hk hlt
    · refine iff_of_false ?_ fun h => hsize h.1
      rintro ⟨bytes, -, -, hlen, -⟩
      omega

end Reading

/-! ### Writing -/

section Writing
variable {d : Db} {i : ℕ} {chunkSize offset size : ℤ} {data : Bytes} {env : Env}

/-- Writing goes through. -/
def Writable (chunkSize offset size : ℤ) (data : Bytes) : Prop :=
  if data = [] then Storable size
  else chunkSize ≠ 0 ∧ ∀ n ∈ [offset.fdiv chunkSize, (offset + data.length - 1).fdiv chunkSize,
    max size (offset + data.length)], Storable n

lemma writeBody_isOk (hnode : d.hasNode i = true) :
    (∃ d', Filesystem.writeBody env i data offset size chunkSize d = .ok (⟨⟩, d')) ↔
      Writable chunkSize offset size data := by
  unfold Writable
  split_ifs with hdata
  · constructor
    · rintro ⟨d', h⟩
      obtain ⟨n, d₁, h₁, h₂⟩ := Body.bind_eq_ok.mp h
      rw [Blobs.writeRange, if_pos hdata] at h₁
      obtain ⟨rfl, -⟩ := Body.pure_eq_ok.mp h₁
      exact (updateSize_eq_ok.mp h₂).1
    · intro hst
      refine ⟨_, Body.bind_eq_ok.mpr ⟨size, d, ?_, updateSize_eq_ok.mpr ⟨hst, rfl⟩⟩⟩
      rw [Blobs.writeRange, if_pos hdata]
      rfl
  · constructor
    · rintro ⟨d', h⟩
      obtain ⟨n, d₁, h₁, h₂⟩ := Body.bind_eq_ok.mp h
      obtain ⟨hne, hst, rfl, -⟩ := (writeRange_eq_ok hnode hdata).mp h₁
      refine ⟨hne, ?_⟩
      simp only [List.forall_mem_cons] at hst ⊢
      exact ⟨hst.1, hst.2.1, (updateSize_eq_ok.mp h₂).1, hst.2.2⟩
    · rintro ⟨hne, hst⟩
      simp only [List.forall_mem_cons] at hst
      refine ⟨_, Body.bind_eq_ok.mpr ⟨_, _, (writeRange_eq_ok hnode hdata).mpr ⟨hne, ?_, rfl, rfl⟩,
        updateSize_eq_ok.mpr ⟨hst.2.2.1, rfl⟩⟩⟩
      simp only [List.forall_mem_cons]
      exact ⟨hst.1, hst.2.1, hst.2.2.2⟩

end Writing

end Python

end SqliteFs
