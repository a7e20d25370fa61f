import SqliteFs.Python.Contents

/-!
# Writing over the contents of a file

When a write changes the chunks of the file it writes to: where a byte that it writes does not stand
there yet. The chunks of a write are merged one after the other, each in its own window of the
range that is written.
-/

namespace SqliteFs

open Txn

namespace Python

/-- The byte that the chunks of node `i` have at position `p` of the file. -/
def Db.storedByte (d : Db) (i : ℕ) (chunkSize p : ℤ) : Option UInt8 :=
  (d.blobs.find? (i, p.fdiv chunkSize)).bind fun r => r.data[(p.fmod chunkSize).toNat]?

/-- Some byte of `data` does not stand at its place from `offset` on. Chunks of a negative size
hold no bytes: there, a write within one chunk does no more than to cut that chunk to its last
bytes, or to give it an empty row. -/
def Db.Overwrites (d : Db) (i : ℕ) (chunkSize offset : ℤ) (data : Bytes) : Prop :=
  if 0 < chunkSize then ∃ k < data.length, d.storedByte i chunkSize (offset + k) ≠ data[k]?
  else offset.fdiv chunkSize = (offset + data.length - 1).fdiv chunkSize ∧
    ∀ r, d.blobs.find? (i, offset.fdiv chunkSize) = some r → -chunkSize < r.data.length

/-- Writing `data` at `offset` into a file of `size` bytes goes through and changes the file. -/
structure Rewrites (d : Db) (i : ℕ) (chunkSize : ℤ) (data : Bytes) (offset size : ℤ) : Prop where
  nonempty : data ≠ []
  chunks : chunkSize ≠ 0
  storable : ∀ n ∈ [offset.fdiv chunkSize, (offset + data.length - 1).fdiv chunkSize,
    max size (offset + data.length)], Storable n
  differs : size < offset + data.length ∨ d.Overwrites i chunkSize offset data

section Writing
variable {d d' : Db} {env : Env} {i : ℕ} {chunkSize offset : ℤ} {data old : Bytes}

lemma getElem?_overlay {l : Bytes} {lo hi cur q : ℕ} (h1 : lo ≤ l.length)
    (h2 : cur + (hi - lo) ≤ data.length) (hq : lo ≤ q) (hq' : q < hi) :
    (l.take lo ++ (data.drop cur).take (hi - lo) ++ l.drop hi)[q]? = data[cur + (q - lo)]? := by
  have hlen : (l.take lo).length = lo := List.length_take_of_le h1
  have hlen' : ((data.drop cur).take (hi - lo)).length = hi - lo := by
    rw [List.length_take, List.length_drop]
    omega
  rw [List.getElem?_append_left (by rw [List.length_append]; omega),
    List.getElem?_append_right (by omega), hlen, List.getElem?_take, if_pos (by omega),
    List.getElem?_drop]

/-- Old bytes with data laid over them from `lo` to `hi` are the old bytes again, if and only if
the data stood there already. -/
lemma overlay_eq_iff {lo hi cur : ℕ} (hlt : lo < hi) (hcur : cur + (hi - lo) ≤ data.length) :
    ((old ++ List.replicate (lo - old.length) 0).take lo ++ (data.drop cur).take (hi - lo)
        ++ (old ++ List.replicate (lo - old.length) 0).drop hi) = old ↔
      ∀ q, lo ≤ q → q < hi → old[q]? = data[cur + (q - lo)]? := by
  have hgrown : lo ≤ (old ++ List.replicate (lo - old.length) 0).length := by
    rw [List.length_append, List.length_replicate]
    omega
  constructor
  · intro heq q hq hq'
    conv_lhs => rw [← heq]
    exact getElem?_overlay hgrown hcur hq hq'
  · intro h
    have hlong : hi ≤ old.length := by
      have hlast := h (hi - 1) (by omega) (by omega)
      rw [List.getElem?_eq_getElem (l := data) (by omega)] at hlast
      have := (List.getElem?_eq_some_iff.mp hlast).1
      omega
    rw [show lo - old.length = 0 by omega, List.replicate_zero, List.append_nil] at hgrown ⊢
    have hmid : (data.drop cur).take (hi - lo) = (old.drop lo).take (hi - lo) := by
      refine List.ext_getElem? fun q => ?_
      rw [List.getElem?_take, List.getElem?_take]
      split_ifs with hq
      · rw [List.getElem?_drop, List.getElem?_drop, h (lo + q) (by omega) (by omega)]
        congr 2
        omega
      · rfl
    rw [hmid, List.append_assoc]
    have hrest : (old.drop lo).take (hi - lo) ++ old.drop hi = old.drop lo := by
      have hdrop : old.drop hi = (old.drop lo).drop (hi - lo) := by
        rw [List.drop_drop]
        congr 1
        omega
      rw [hdrop, List.take_append_drop]
    rw [hrest, List.take_append_drop]

/-- The new data of a chunk whose window has natural bounds. -/
lemma mergeChunk_eq {existing : List (ℤ × Bytes)} {c : ℤ} {lo hi cur : ℕ}
    (hlo : max 0 (offset - c * chunkSize) = lo)
    (hhi : min chunkSize (offset + data.length - c * chunkSize) = hi) (hle : lo ≤ hi)
    (hold : (existing.lookup c).getD [] = old) :
    Blobs.mergeChunk existing data offset chunkSize cur c =
      ((old ++ List.replicate (lo - old.length) 0).take lo ++ (data.drop cur).take (hi - lo)
        ++ (old ++ List.replicate (lo - old.length) 0).drop hi, ((cur + (hi - lo) : ℕ) : ℤ)) := by
  have hgrown : (if (old.length : ℤ) < lo then old ++ Blobs.zeros (lo - old.length) else old)
      = old ++ List.replicate (lo - old.length) 0 := by
    split_ifs with hshort
    · unfold Blobs.zeros
      congr 2
      omega
    · rw [show lo - old.length = 0 by omega, List.replicate_zero, List.append_nil]
  have hnext : (cur : ℤ) + ((hi : ℤ) - lo) = ((cur + (hi - lo) : ℕ) : ℤ) := by omega
  unfold Blobs.mergeChunk
  simp only [hlo, hhi, hold, hgrown, hnext]
  rw [show (0 : ℤ) = (0 : ℕ) from rfl, Blobs.slice_natCast, Blobs.slice_natCast,
    Blobs.slice_natCast, List.take_length, List.drop_zero, List.drop_take,
    Nat.add_sub_cancel_left]

/-- Where chunk `c` begins, and where it and the written range overlap. -/
structure Window (chunkSize offset : ℤ) (data : Bytes) (c : ℤ) (lo hi cur : ℕ) : Prop where
  lo_eq : max 0 (offset - c * chunkSize) = lo
  hi_eq : min chunkSize (offset + data.length - c * chunkSize) = hi
  cur_eq : max 0 (c * chunkSize - offset) = cur
  lt : lo < hi
  cur_le : cur + (hi - lo) ≤ data.length
  next : c < (offset + data.length - 1).fdiv chunkSize →
    max 0 ((c + 1) * chunkSize - offset) = (cur + (hi - lo) : ℕ)

lemma exists_window (hk : 0 < chunkSize) (hdata : data ≠ []) {c : ℤ} (h1 : offset.fdiv chunkSize ≤ c)
    (h2 : c ≤ (offset + data.length - 1).fdiv chunkSize) :
    ∃ lo hi cur, Window chunkSize offset data c lo hi cur := by
  have hlen : 0 < data.length := List.length_pos_of_ne_nil hdata
  rw [Int.fdiv_eq_ediv_of_nonneg _ hk.le] at h1 h2
  have hend : c * chunkSize ≤ offset + data.length - 1 := (Int.le_ediv_iff_mul_le hk).mp h2
  have hstart : offset < (c + 1) * chunkSize :=
    (Int.ediv_lt_iff_lt_mul hk).mp (Int.lt_add_one_of_le h1)
  rw [add_one_mul] at hstart
  have hnext : c < (offset + data.length - 1).fdiv chunkSize →
      c * chunkSize + chunkSize ≤ offset + data.length - 1 := by
    intro h
    rw [Int.fdiv_eq_ediv_of_nonneg _ hk.le] at h
    rw [← add_one_mul]
    exact (Int.le_ediv_iff_mul_le hk).mp h
  refine ⟨(max 0 (offset - c * chunkSize)).toNat,
    (min chunkSize (offset + data.length - c * chunkSize)).toNat,
    (max 0 (c * chunkSize - offset)).toNat, ?_, ?_, ?_, ?_, ?_, fun h => ?_⟩
  · omega
  · omega
  · omega
  · omega
  · omega
  · have := hnext h
    rw [add_one_mul]
    omega

variable {existing : List (ℤ × Bytes)}

/-- The rows that the writing loop lists. -/
lemma mergeLoop_eq (existing : List (ℤ × Bytes)) (hk : 0 < chunkSize) (hdata : data ≠ []) (m : ℕ) : ∀ c, offset.fdiv chunkSize ≤ c →
    c + m ≤ (offset + data.length - 1).fdiv chunkSize + 1 →
    Blobs.mergeLoop existing data offset chunkSize ((List.range m).map fun (k : ℕ) => c + k)
        (max 0 (c * chunkSize - offset)) =
      ((List.range m).map fun (k : ℕ) => c + k).map fun x =>
        (x, (Blobs.mergeChunk existing data offset chunkSize
          (max 0 (x * chunkSize - offset)) x).1) := by
  induction m with
  | zero => exact fun _ _ _ => rfl
  | succ m ih =>
    intro c h1 h2
    obtain ⟨lo, hi, cur, hw⟩ := exists_window hk hdata h1 (by omega)
    have hrange : ((List.range (m + 1)).map fun (k : ℕ) => c + k)
        = c :: (List.range m).map fun (k : ℕ) => c + 1 + k := by
      rw [List.range_succ_eq_map, List.map_cons, List.map_map]
      refine congrArg₂ _ (by simp) (List.map_congr_left fun k _ => ?_)
      simp only [Function.comp_apply, Nat.cast_succ]
      omega
    rw [hrange, Blobs.mergeLoop, List.map_cons]
    cases m with
    | zero => rfl
    | succ m =>
      rw [← ih (c + 1) (by omega) (by push_cast at h2 ⊢; omega), hw.next (by push_cast at h2; omega),
        hw.cur_eq, mergeChunk_eq hw.lo_eq hw.hi_eq hw.lt.le rfl]

/-- The rows of `putAll`, one for each of the chunks `cs`. -/
lemma find?_putRows (g : ℤ → Bytes) (c : ℤ) (cs : List ℤ) : ∀ t : KeyTable BlobsRow,
    (Blobs.putRows t i (cs.map fun x => (x, g x))).find? (i, c)
      = if c ∈ cs then some ⟨i, c, g c⟩ else t.find? (i, c) := by
  induction cs with
  | nil => exact fun _ => (if_neg List.not_mem_nil).symm
  | cons x cs ih =>
    intro t
    rw [List.map_cons, Blobs.putRows, List.foldl_cons, ← Blobs.putRows, ih, KeyTable.find?_put]
    by_cases hc : c ∈ cs
    · rw [if_pos hc, if_pos (List.mem_cons_of_mem _ hc)]
    · rw [if_neg hc]
      by_cases hx : x = c
      · subst hx
        rw [if_pos List.mem_cons_self]
        exact if_pos rfl
      · rw [if_neg (by simp [hx]), if_neg (by simp [hc, Ne.symm hx])]

lemma divMod_at (hk : 0 < chunkSize) {c : ℤ} {q : ℕ} (hq : (q : ℤ) < chunkSize) :
    (c * chunkSize + q).fdiv chunkSize = c ∧ (c * chunkSize + q).fmod chunkSize = q := by
  rw [Int.fdiv_eq_ediv_of_nonneg _ hk.le, Int.fmod_eq_emod_of_nonneg _ hk.le,
    Int.ediv_emod_unique hk]
  refine ⟨?_, by omega, hq⟩
  rw [mul_comm, add_comm]

lemma storedByte_at (hk : 0 < chunkSize) {c : ℤ} {q : ℕ} (hq : (q : ℤ) < chunkSize) :
    d.storedByte i chunkSize (c * chunkSize + q)
      = (d.blobs.find? (i, c)).bind fun r => r.data[q]? := by
  obtain ⟨hdiv, hmod⟩ := divMod_at hk hq (c := c)
  unfold Db.storedByte
  rw [hdiv, hmod, Int.toNat_natCast]

lemma Window.at_eq {c : ℤ} {lo hi cur q : ℕ} (hw : Window chunkSize offset data c lo hi cur)
    (hq : lo ≤ q) : offset + (cur + (q - lo) : ℕ) = c * chunkSize + q := by
  have := hw.lo_eq
  have := hw.cur_eq
  omega

/-- A chunk comes out of the loop as it was, if every byte of the window stood there already. -/
lemma merged_eq_iff (hk : 0 < chunkSize) {c : ℤ} {lo hi cur : ℕ}
    (hw : Window chunkSize offset data c lo hi cur)
    (he : existing.lookup c = (d.blobs.find? (i, c)).map BlobsRow.data) :
    d.blobs.find? (i, c) = some ⟨i, c, (Blobs.mergeChunk existing data offset chunkSize
        (max 0 (c * chunkSize - offset)) c).1⟩ ↔
      ∀ q, lo ≤ q → q < hi → d.storedByte i chunkSize (offset + (cur + (q - lo) : ℕ))
        = data[cur + (q - lo)]? := by
  have hstored : ∀ q, lo ≤ q → q < hi → d.storedByte i chunkSize (offset + (cur + (q - lo) : ℕ))
      = (d.blobs.find? (i, c)).bind fun r => r.data[q]? := by
    intro q hq hq'
    rw [hw.at_eq hq, storedByte_at hk]
    have := hw.hi_eq
    omega
  rw [hw.cur_eq, mergeChunk_eq hw.lo_eq hw.hi_eq hw.lt.le rfl]
  cases hr : d.blobs.find? (i, c) with
  | none =>
    refine iff_of_false (fun h => nomatch h) fun h => ?_
    have hlo := h lo le_rfl hw.lt
    rw [hstored lo le_rfl hw.lt, hr, Nat.sub_self, Nat.add_zero] at hlo
    have := hw.cur_le
    have := hw.lt
    exact List.getElem?_eq_none_iff.mp hlo.symm |>.not_gt (by omega)
  | some r =>
    have hkey := (KeyTable.find?_eq_some.mp hr).2
    rw [key_blobsRow, Prod.mk.injEq] at hkey
    obtain ⟨rfl, rfl⟩ := hkey
    have hdata : (existing.lookup r.chunkId).getD [] = r.data := by
      rw [he, hr]
      rfl
    rw [hdata, Option.some.injEq]
    have hrow : ∀ bytes, r = ⟨r.inode, r.chunkId, bytes⟩ ↔ bytes = r.data := by
      intro bytes
      exact ⟨fun h => by rw [h], fun h => by rw [h]⟩
    rw [hrow, overlay_eq_iff hw.lt hw.cur_le]
    refine forall_congr' fun q => forall_congr' fun hq => forall_congr' fun hq' => ?_
    rw [hstored q hq hq', hr]
    rfl

/-- The rows that a write puts into the table. -/
def writtenRows (d : Db) (i : ℕ) (chunkSize offset : ℤ) (data : Bytes) : List (ℤ × Bytes) :=
  let firstChunk := offset.fdiv chunkSize
  let lastChunk := (offset + data.length - 1).fdiv chunkSize
  Blobs.mergeLoop (Blobs.selectChunks d i firstChunk lastChunk) data offset chunkSize
    (Blobs.range firstChunk (lastChunk + 1)) 0

lemma lookup_selectChunks {first last c : ℤ} (h1 : first ≤ c) (h2 : c ≤ last) :
    (Blobs.selectChunks d i first last).lookup c = (d.blobs.find? (i, c)).map BlobsRow.data :=
  Blobs.lookup_selectChunks (d := d.skeleton) rfl h1 h2

lemma mem_range {first last c : ℤ} : c ∈ Blobs.range first (last + 1) ↔ first ≤ c ∧ c ≤ last := by
  unfold Blobs.range
  simp only [List.mem_map, List.mem_range]
  constructor
  · rintro ⟨k, hk, rfl⟩
    omega
  · rintro ⟨h1, h2⟩
    exact ⟨(c - first).toNat, by omega, by omega⟩

/-- The bytes written lie in the chunks from the first to the last. -/
lemma chunk_bounds (offset : ℤ) (hk : 0 < chunkSize) {k : ℕ} (hlt : k < data.length) :
    offset.fdiv chunkSize ≤ (offset + k).fdiv chunkSize ∧
      (offset + k).fdiv chunkSize ≤ (offset + data.length - 1).fdiv chunkSize := by
  simp only [Int.fdiv_eq_ediv_of_nonneg _ hk.le]
  exact ⟨Int.ediv_le_ediv hk (by omega), Int.ediv_le_ediv hk (by omega)⟩

lemma overwrites_iff_of_pos (hk : 0 < chunkSize) (hdata : data ≠ []) :
    (∃ c, (Blobs.putRows d.blobs i (writtenRows d i chunkSize offset data)).find? (i, c)
      ≠ d.blobs.find? (i, c)) ↔ d.Overwrites i chunkSize offset data := by
  have hlen : 0 < data.length := List.length_pos_of_ne_nil hdata
  obtain ⟨-, hle⟩ := chunk_bounds offset hk hlen
  rw [Nat.cast_zero, add_zero] at hle
  have hstart : offset.fdiv chunkSize * chunkSize ≤ offset := by
    rw [Int.fdiv_eq_ediv_of_nonneg _ hk.le]
    exact Int.ediv_mul_le _ hk.ne'
  have hrows := mergeLoop_eq (Blobs.selectChunks d i (offset.fdiv chunkSize)
    ((offset + data.length - 1).fdiv chunkSize)) hk hdata
    ((offset + data.length - 1).fdiv chunkSize + 1 - offset.fdiv chunkSize).toNat
    (offset.fdiv chunkSize) le_rfl (by omega)
  rw [max_eq_left (by omega), ← Blobs.range] at hrows
  unfold Db.Overwrites writtenRows
  dsimp only
  rw [if_pos hk, hrows]
  simp only [find?_putRows, mem_range]
  constructor
  · rintro ⟨c, hc⟩
    by_contra hnone
    simp only [not_exists, not_and, not_not] at hnone
    split_ifs at hc with hin
    · obtain ⟨lo, hi, cur, hw⟩ := exists_window hk hdata hin.1 hin.2
      refine hc ((merged_eq_iff hk hw (lookup_selectChunks hin.1 hin.2)).mpr fun q hq hq' => ?_).symm
      have := hw.cur_le
      exact hnone _ (by omega)
    · exact hc rfl
  · rintro ⟨k, hlt, hne⟩
    have hin := chunk_bounds offset hk hlt
    obtain ⟨lo, hi, cur, hw⟩ := exists_window hk hdata hin.1 hin.2
    refine ⟨(offset + k).fdiv chunkSize, fun heq => hne ?_⟩
    rw [if_pos hin] at heq
    have hall := (merged_eq_iff hk hw (lookup_selectChunks hin.1 hin.2)).mp heq.symm
    have hpos := Int.fdiv_mul_add_fmod (offset + k) chunkSize
    have hmod := Int.fmod_nonneg_of_pos (offset + k) hk
    have hmod' := Int.fmod_lt_of_pos (offset + k) hk
    have hlo := hw.lo_eq
    have hhi := hw.hi_eq
    have hcur := hw.cur_eq
    generalize (offset + k).fdiv chunkSize * chunkSize = start at *
    have hk' : k = cur + (((offset + k).fmod chunkSize).toNat - lo) := by omega
    rw [hk']
    exact hall _ (by omega) (by omega)

lemma index_neg (n : ℕ) {k : ℤ} (hk : 0 < k) : Blobs.index n (-k) = ((n : ℤ) - k).toNat := by
  rw [Blobs.index, if_pos (by omega)]
  rfl

lemma fdiv_neg_bounds {a k : ℤ} (hk : 0 < k) :
    a.fdiv (-k) * k ≤ -a ∧ -a < a.fdiv (-k) * k + k := by
  rw [← Int.neg_fdiv_neg, neg_neg, Int.fdiv_eq_ediv_of_nonneg _ hk.le]
  refine ⟨Int.ediv_mul_le _ hk.ne', ?_⟩
  rw [← add_one_mul]
  exact Int.lt_mul_of_ediv_lt hk (Int.lt_add_one_iff.mpr le_rfl)

/-- With a negative size of chunks, the loop puts nothing into the chunk, and takes its beginning
away. -/
lemma mergeLoop_neg {existing : List (ℤ × Bytes)} {k first : ℤ} (hk : 0 < k)
    (hfirst : first * k ≤ -offset) (hlast : -(offset + data.length - 1) < first * k + k)
    (hshort : (data.length : ℤ) ≤ k) :
    Blobs.mergeLoop existing data offset (-k) [first] 0
      = [first].map fun cid => (cid, ((existing.lookup first).getD []).drop
          ((((existing.lookup first).getD []).length : ℤ) - k).toNat) := by
  generalize hold : (existing.lookup first).getD [] = old
  have hlo : max 0 (offset - first * -k) = 0 := by
    rw [Int.mul_neg]
    omega
  have hhi : min (-k) (offset + data.length - first * -k) = -k := by
    rw [Int.mul_neg]
    omega
  have hdrop : Blobs.slice data 0 (0 + (-k - 0)) = [] := by
    rw [zero_add, sub_zero, Blobs.slice, index_neg _ hk,
      show ((data.length : ℤ) - k).toNat = 0 by omega, List.take_zero, List.drop_nil]
  have hkeep : Blobs.slice old (-k) old.length = old.drop ((old.length : ℤ) - k).toNat := by
    rw [Blobs.slice, index_neg _ hk, Blobs.index_natCast, min_self, List.take_length]
  have hnone : Blobs.slice old 0 0 = [] := by
    rw [show (0 : ℤ) = (0 : ℕ) from rfl, Blobs.slice_natCast, List.take_zero, List.drop_nil]
  unfold Blobs.mergeLoop Blobs.mergeLoop Blobs.mergeChunk
  simp only [hlo, hhi, hold]
  rw [if_neg (by omega), hdrop, hkeep, hnone]
  rfl

lemma overwrites_iff_of_neg (hk : chunkSize < 0) (hdata : data ≠ []) :
    (∃ c, (Blobs.putRows d.blobs i (writtenRows d i chunkSize offset data)).find? (i, c)
      ≠ d.blobs.find? (i, c)) ↔ d.Overwrites i chunkSize offset data := by
  have hlen : 0 < data.length := List.length_pos_of_ne_nil hdata
  obtain ⟨k, hk', rfl⟩ : ∃ k : ℤ, 0 < k ∧ chunkSize = -k := ⟨-chunkSize, by omega, by omega⟩
  obtain ⟨hf, hf'⟩ := fdiv_neg_bounds (a := offset) hk'
  obtain ⟨hl, hl'⟩ := fdiv_neg_bounds (a := offset + data.length - 1) hk'
  unfold Db.Overwrites writtenRows
  rw [if_neg (by omega)]
  dsimp only
  generalize hfirst : offset.fdiv (-k) = first at *
  generalize hlast : (offset + data.length - 1).fdiv (-k) = last at *
  by_cases heq : first = last
  · subst heq
    have hrange : Blobs.range first (first + 1) = [first] := by
      unfold Blobs.range
      rw [show first + 1 - first = 1 by omega]
      simp
    rw [hrange, mergeLoop_neg hk' hf (by omega) (by omega), lookup_selectChunks le_rfl le_rfl]
    simp only [find?_putRows, List.mem_singleton]
    constructor
    · rintro ⟨c, hc⟩
      split_ifs at hc with hcf
      · subst hcf
        refine ⟨trivial, fun r hr => ?_⟩
        by_contra hshort
        refine hc ?_
        rw [hr, Option.map_some, Option.getD_some, show ((r.data.length : ℤ) - k).toNat = 0 by omega,
          List.drop_zero]
        have hkey := (KeyTable.find?_eq_some.mp hr).2
        rw [key_blobsRow, Prod.mk.injEq] at hkey
        rw [← hkey.1, ← hkey.2]
      · exact absurd rfl hc
    · rintro ⟨-, hlong⟩
      refine ⟨first, fun hsame => ?_⟩
      rw [if_pos rfl] at hsame
      have hlt := hlong _ hsame.symm
      rw [← hsame] at hlt
      simp only [Option.map_some, Option.getD_some, List.length_drop] at hlt
      omega
  · have hempty : Blobs.range first (last + 1) = [] := by
      unfold Blobs.range
      rw [show (last + 1 - first).toNat = 0 by
        have : last * k < first * k + k := by omega
        rw [← add_one_mul] at this
        have := lt_of_mul_lt_mul_right this hk'.le
        omega]
      rfl
    rw [hempty]
    exact iff_of_false (fun h => h.elim fun _ hc => hc rfl) fun h => heq h.1

lemma writeRange_eq_ok {size n : ℤ} (hnode : d.hasNode i = true) (hdata : data ≠ []) :
    Blobs.writeRange i data offset size chunkSize d = .ok (n, d') ↔
      chunkSize ≠ 0 ∧ (∀ n ∈ [offset.fdiv chunkSize, (offset + data.length - 1).fdiv chunkSize],
        Storable n) ∧ n = max size (offset + data.length) ∧
      d' = { d with blobs := Blobs.putRows d.blobs i (writtenRows d i chunkSize offset data) } := by
  unfold Blobs.writeRange
  rw [if_neg hdata]
  constructor
  · intro h
    obtain ⟨first, hfirst, h₁⟩ := Body.ask_bind_eq_ok.mp h
    obtain ⟨last, hlast, h₂⟩ := Body.ask_bind_eq_ok.mp h₁
    obtain ⟨hst, h₃⟩ := params_bind_eq_ok.mp h₂
    obtain ⟨existing, hex, h₄⟩ := Body.ask_bind_eq_ok.mp h₃
    obtain ⟨_, d₁, hput, h₅⟩ := Body.bind_eq_ok.mp h₄
    obtain ⟨hne, rfl⟩ := floorDiv_eq_ok.mp hfirst
    obtain ⟨-, rfl⟩ := floorDiv_eq_ok.mp hlast
    obtain rfl := Except.ok.inj hex
    rw [Blobs.putAll_ok _ hnode] at hput
    obtain ⟨rfl, rfl⟩ := Body.pure_eq_ok.mp h₅
    exact ⟨hne, hst, rfl, (Prod.mk.inj (Except.ok.inj hput)).2.symm⟩
  · rintro ⟨hne, hst, rfl, rfl⟩
    refine Body.ask_bind_eq_ok.mpr ⟨_, floorDiv_eq_ok.mpr ⟨hne, rfl⟩, ?_⟩
    refine Body.ask_bind_eq_ok.mpr ⟨_, floorDiv_eq_ok.mpr ⟨hne, rfl⟩, ?_⟩
    refine params_bind_eq_ok.mpr ⟨hst, Body.ask_bind_eq_ok.mpr ⟨_, rfl, ?_⟩⟩
    exact Body.bind_eq_ok.mpr ⟨_, _, Blobs.putAll_ok _ hnode, rfl⟩

lemma putRows_others {rows : List (ℤ × Bytes)} : ∀ {t : KeyTable BlobsRow} {j : ℕ} {c : ℤ}, j ≠ i →
    (Blobs.putRows t i rows).find? (j, c) = t.find? (j, c) := by
  induction rows with
  | nil => exact fun _ => rfl
  | cons row rows ih =>
    intro t j c hj
    rw [Blobs.putRows, List.foldl_cons, ← Blobs.putRows, ih hj, KeyTable.find?_put]
    exact if_neg fun h => hj (Prod.mk.inj h).1.symm

lemma edits_writeBody (env : Env) (data : Bytes) (offset chunkSize : ℤ) {row : NodesRow}
    (hrow : d.nodes.find? i = some row) :
    d.Edits (committed (Filesystem.writeBody env i data offset row.size chunkSize) d) i
      (Rewrites d i chunkSize data offset row.size) := by
  have hnode : d.hasNode i = true := by
    unfold Db.hasNode
    rw [hrow]
    rfl
  unfold committed
  cases h : Filesystem.writeBody env i data offset row.size chunkSize d with
  | error e =>
    refine ⟨fun _ _ => .refl, rfl, iff_of_false (not_not_intro .refl) fun hrew => ?_⟩
    have hst := hrew.storable
    have hok : Filesystem.writeBody env i data offset row.size chunkSize d = .ok (⟨⟩, _) :=
      Body.bind_eq_ok.mpr ⟨_, _, (writeRange_eq_ok hnode hrew.nonempty).mpr ⟨hrew.chunks,
        fun n hn => hst n (by simp at hn ⊢; tauto), rfl, rfl⟩,
        updateSize_eq_ok.mpr ⟨hst _ (by simp), rfl⟩⟩
    cases h.symm.trans hok
  | ok r =>
    obtain ⟨u, d'⟩ := r
    obtain ⟨n, d₁, h₁, h₂⟩ := Body.bind_eq_ok.mp h
    by_cases hdata : data = []
    · have hsame : n = row.size ∧ d₁ = d := by
        unfold Blobs.writeRange at h₁
        rw [if_pos hdata] at h₁
        exact Body.pure_eq_ok.mp h₁
      obtain ⟨rfl, rfl⟩ := hsame
      obtain ⟨hothers, hnode', hblobs, hsize⟩ := sizes_updateSize .refl h₂
      refine ⟨hothers, hnode', (not_sameFile_iff hrow hsize).trans ?_⟩
      rw [hblobs]
      exact iff_of_false (by simp) fun hrew => hrew.nonempty hdata
    · obtain ⟨hne, hst, rfl, rfl⟩ := (writeRange_eq_ok hnode hdata).mp h₁
      have hedits : d.EditsChunks i
          { d with blobs := Blobs.putRows d.blobs i (writtenRows d i chunkSize offset data) } :=
        ⟨rfl, fun j hj c => putRows_others hj⟩
      obtain ⟨hothers, hnode', hblobs, hsize⟩ := sizes_updateSize hedits h₂
      have hover : (∃ c, (Blobs.putRows d.blobs i
          (writtenRows d i chunkSize offset data)).find? (i, c) ≠ d.blobs.find? (i, c)) ↔
            d.Overwrites i chunkSize offset data := by
        rcases lt_or_gt_of_ne hne with hneg | hpos
        · exact overwrites_iff_of_neg hneg hdata
        · exact overwrites_iff_of_pos hpos hdata
      refine ⟨hothers, hnode', (not_sameFile_iff hrow hsize).trans ?_⟩
      rw [hblobs, hover]
      constructor
      · intro hdiff
        refine ⟨hdata, hne, fun m hm => ?_, hdiff.imp_left fun hlong => by omega⟩
        have hnew := (updateSize_eq_ok.mp h₂).1
        simp only [List.mem_cons, List.not_mem_nil, or_false] at hm hst
        rcases hm with rfl | rfl | rfl
        · exact hst _ (Or.inl rfl)
        · exact hst _ (Or.inr rfl)
        · exact hnew
      · exact fun hrew => hrew.differs.imp_left fun hlong => by omega

end Writing

end Python

end SqliteFs
