import SqliteFs.Blobs.Refinement
import SqliteFs.Lib.Checked

/-!
# The arithmetic of chunks

Reading and writing a range add, subtract, multiply and divide without a check. Here are the two with
checked arithmetic: there is no result if a sum, a difference or a product is out of range, if the
chunks have no size, if a slice is out of bounds, or if the number of a chunk turns negative where
it is stored. Where they have a result, the unchecked ones have the same. Memory is not limited
here.
-/

namespace SqliteFs

open Txn

namespace Blobs

/-! ### The functions with checks -/

namespace Checking

/-- What a chunk's bytes, if it has any, contribute to the bytes from `lo` to `hi`. -/
def padded (lo hi want : ℕ) : Option Bytes → Option Bytes
  | some data => do
    let sliceLo := min lo data.length
    let sliceHi := min hi data.length
    let piece ← Checked.slice data sliceLo sliceHi
    let kept ← Checked.sub sliceHi sliceLo
    let pad ← Checked.sub want kept
    return piece ++ List.replicate pad 0
  | none => some (List.replicate want 0)

/-- One round of the loop of `readRange`. -/
def readChunk (present : List (ℕ × Bytes)) (offset end_ chunkSize cid : ℕ) : Option Bytes := do
  let chunkStart ← Checked.mul cid chunkSize
  let lo := min (offset - chunkStart) chunkSize
  let rest ← Checked.sub end_ chunkStart
  let hi := min rest chunkSize
  let want ← Checked.sub hi lo
  padded lo hi want (present.lookup cid)

/-- The loop of `readRange`. -/
def readLoop (present : List (ℕ × Bytes)) (offset end_ chunkSize : ℕ) (out : Bytes) :
    List ℕ → Option Bytes
  | [] => some out
  | cid :: cids => do
    let piece ← readChunk present offset end_ chunkSize cid
    readLoop present offset end_ chunkSize (out ++ piece) cids

def readRange (d : Db) (inode offset size fileSize chunkSize : ℕ) : Option Bytes :=
  if offset ≥ fileSize ∨ size = 0 then some [] else do
  let sum ← Checked.add offset size
  let end_ := min sum fileSize
  let _ ← Checked.sub end_ offset
  let first ← Checked.div offset chunkSize
  let top ← Checked.sub end_ 1
  let last ← Checked.div top chunkSize
  let _ ← Checked.toSigned first
  let _ ← Checked.toSigned last
  readLoop (selectChunks d inode first last) offset end_ chunkSize [] (inclusive first last)

/-- `if v.len() < n { v.resize(n, 0); }`. -/
def growTo (v : Bytes) (n : ℕ) : Bytes :=
  if v.length < n then v ++ List.replicate (n - v.length) 0 else v

/-- One round of the loop of `writeRange`. -/
def mergeChunk (existing : List (ℕ × Bytes)) (data : Bytes) (offset n chunkSize cursor cid : ℕ) :
    Option (Bytes × ℕ) := do
  let chunkStart ← Checked.mul cid chunkSize
  let lo := min (offset - chunkStart) chunkSize
  let sum ← Checked.add offset n
  let rest ← Checked.sub sum chunkStart
  let hi := min rest chunkSize
  let sliceLen ← Checked.sub hi lo
  let old := growTo ((existing.lookup cid).getD []) lo
  let tailStart := min hi old.length
  let tail ← Checked.slice old tailStart old.length
  let next ← Checked.add cursor sliceLen
  let piece ← Checked.slice data cursor next
  return (old.take lo ++ piece ++ tail, next)

/-- The loop of `writeRange`: the rows that it stores. -/
def writeLoop (existing : List (ℕ × Bytes)) (data : Bytes) (offset n chunkSize : ℕ) :
    List ℕ → ℕ → Option (List (ℤ × Bytes))
  | [], _ => some []
  | cid :: cids, cursor => do
    let merged ← mergeChunk existing data offset n chunkSize cursor cid
    let chunkId ← Checked.toSigned cid
    let rows ← writeLoop existing data offset n chunkSize cids merged.2
    return (chunkId, merged.1) :: rows

/-- The rows that `writeRange` stores, and the new size of the file. -/
def writeRange (d : Db) (inode : ℕ) (data : Bytes) (offset fileSize chunkSize : ℕ) :
    Option (List (ℤ × Bytes) × ℕ) :=
  if data = [] then some ([], fileSize) else do
  let n := data.length
  let first ← Checked.div offset chunkSize
  let sum ← Checked.add offset n
  let top ← Checked.sub sum 1
  let last ← Checked.div top chunkSize
  let _ ← Checked.toSigned first
  let _ ← Checked.toSigned last
  let rows ← writeLoop (selectChunks d inode first last) data offset n chunkSize
    (inclusive first last) 0
  return (rows, max fileSize sum)

end Checking

variable {d : Db} {inode chunkSize : ℕ}

/-! ### Where they have a result -/

lemma checking_padded {lo hi : ℕ} (data : Bytes) (h : lo ≤ hi) :
    (Checking.padded lo hi (hi - lo) (some data)).isSome := by
  have hle : min lo data.length ≤ min hi data.length := by omega
  simp only [Checking.padded, Checked.slice_of_le hle (Nat.min_le_right _ _), Checked.sub_of_le hle,
    Checked.sub_of_le (show min hi data.length - min lo data.length ≤ hi - lo by omega),
    Option.bind_eq_bind, Option.bind_some]
  rfl

section Window
variable {a b c : ℕ} (hk : 0 < chunkSize) (hab : a < b) (hb : b < 2 ^ 64)
include hk hab hb

lemma checking_readChunk (present : List (ℕ × Bytes)) (h2 : c ≤ (b - 1) / chunkSize) :
    (Checking.readChunk present a b chunkSize c).isSome := by
  have hc : c * chunkSize ≤ b - 1 := (Nat.le_div_iff_mul_le hk).mp h2
  have hlohi : min (a - c * chunkSize) chunkSize ≤ min (b - c * chunkSize) chunkSize := by omega
  have hcb : c * chunkSize ≤ b := hc.trans (Nat.sub_le b 1)
  simp only [Checking.readChunk, Checked.mul_of_lt (hcb.trans_lt hb), Checked.sub_of_le hcb,
    Checked.sub_of_le hlohi, Option.bind_eq_bind, Option.bind_some]
  cases present.lookup c with
  | none => rfl
  | some data => exact checking_padded data hlohi

lemma checking_readLoop (present : List (ℕ × Bytes)) (m : ℕ) : ∀ (c : ℕ) (out : Bytes),
    c + m ≤ (b - 1) / chunkSize + 1 →
      (Checking.readLoop present a b chunkSize out (List.range' c m)).isSome := by
  induction m with
  | zero =>
    intro c out _
    rfl
  | succ m ih =>
    intro c out h
    obtain ⟨piece, hpiece⟩ :=
      Option.isSome_iff_exists.mp (checking_readChunk (c := c) hk hab hb present (by omega))
    rw [List.range'_succ, Checking.readLoop, hpiece]
    exact ih (c + 1) _ (by omega)

end Window

/-- Reading has a result with checks if and only if there is nothing to read, or the chunks have a
size, the sum is in range, and the last chunk has a number that does not turn negative. -/
theorem checking_readRange_iff {offset size fileSize : ℕ} :
    (Checking.readRange d inode offset size fileSize chunkSize).isSome ↔
      fileSize ≤ offset ∨ size = 0 ∨ 0 < chunkSize ∧ offset + size < 2 ^ 64 ∧
        (min (offset + size) fileSize - 1) / chunkSize < 2 ^ 63 := by
  unfold Checking.readRange
  by_cases hempty : offset ≥ fileSize ∨ size = 0
  · rw [if_pos hempty]
    exact iff_of_true rfl (hempty.imp_right Or.inl)
  rw [if_neg hempty, ← or_assoc, or_iff_right hempty]
  constructor
  · intro h
    obtain ⟨v, hv⟩ := Option.isSome_iff_exists.mp h
    simp only [Option.bind_eq_bind, Option.bind_eq_some_iff, Checked.add_eq_some,
      Checked.sub_eq_some, Checked.div_eq_some, Checked.toSigned_eq_some] at hv
    obtain ⟨sum, ⟨hsum, rfl⟩, -, -, first, ⟨hk, -⟩, top, ⟨-, rfl⟩, last, ⟨-, rfl⟩, -, -, -,
      ⟨hlast, -⟩, -⟩ := hv
    exact ⟨hk, hsum, hlast⟩
  · rintro ⟨hk, hsum, hlast⟩
    have hab : offset < min (offset + size) fileSize := by omega
    have hfirst : offset / chunkSize ≤ (min (offset + size) fileSize - 1) / chunkSize :=
      Nat.div_le_div_right (by omega)
    simp only [Checked.add_of_lt hsum, Checked.sub_of_le hab.le,
      Checked.sub_of_le (show 1 ≤ min (offset + size) fileSize by omega), Checked.div_of_pos hk,
      Checked.toSigned_of_lt (hfirst.trans_lt hlast), Checked.toSigned_of_lt hlast,
      Option.bind_eq_bind, Option.bind_some]
    exact checking_readLoop hk hab ((Nat.min_le_left _ _).trans_lt hsum) _ _ _ _ (by omega)

section Window
variable {data : Bytes} {offset c : ℕ} (hk : 0 < chunkSize) (hdata : data ≠ [])
  (hb : offset + data.length < 2 ^ 63)
include hk hdata hb

/-- The cursor is at the bytes of `data` that are for the chunk. -/
lemma checking_mergeChunk (existing : List (ℕ × Bytes)) (h1 : offset / chunkSize ≤ c)
    (h2 : c ≤ (offset + data.length - 1) / chunkSize) :
    ∃ v, Checking.mergeChunk existing data offset data.length chunkSize
        (Chunks.edge offset (offset + data.length) chunkSize c - offset) c
      = some (v, Chunks.edge offset (offset + data.length) chunkSize (c + 1) - offset) := by
  have hlen : 0 < data.length := List.length_pos_of_ne_nil hdata
  have hab : offset < offset + data.length := by omega
  have hc : c * chunkSize ≤ offset + data.length :=
    ((Nat.le_div_iff_mul_le hk).mp h2).trans (Nat.sub_le _ _)
  have hlo := Chunks.edge_eq_lo hk hab h1 h2
  have hhi := Chunks.edge_succ_eq_hi hk h1 h2
  have hge := Chunks.le_edge (a := offset) (k := chunkSize) (c := c) hab.le
  have hup := Chunks.edge_le (a := offset) (b := offset + data.length) (k := chunkSize) (c := c + 1)
  generalize Chunks.edge offset (offset + data.length) chunkSize c = lo at *
  generalize Chunks.edge offset (offset + data.length) chunkSize (c + 1) = hi at *
  have hsub : min (offset - c * chunkSize) chunkSize
      ≤ min (offset + data.length - c * chunkSize) chunkSize := by omega
  have hsum : lo - offset + (min (offset + data.length - c * chunkSize) chunkSize
      - min (offset - c * chunkSize) chunkSize) = hi - offset := by omega
  have h64 : offset + data.length < Checked.bound := hb.trans (by decide)
  have hnext : hi - offset < Checked.bound := lt_of_le_of_lt (by omega) h64
  simp only [Checking.mergeChunk, Checked.mul_of_lt (hc.trans_lt h64), Checked.add_of_lt h64,
    Checked.sub_of_le hc, Checked.sub_of_le hsub, Option.bind_eq_bind, Option.bind_some,
    Checked.slice_of_le (Nat.min_le_right _ _) le_rfl]
  rw [← hsum] at hnext
  rw [Checked.add_of_lt hnext, hsum]
  simp only [Option.bind_some, Checked.slice_of_le (show lo - offset ≤ hi - offset by omega)
    (show hi - offset ≤ data.length by omega)]
  exact ⟨_, rfl⟩

lemma checking_writeLoop (existing : List (ℕ × Bytes)) (m : ℕ) : ∀ c : ℕ, offset / chunkSize ≤ c →
    c + m ≤ (offset + data.length - 1) / chunkSize + 1 →
      ∃ rows, Checking.writeLoop existing data offset data.length chunkSize (List.range' c m)
        (Chunks.edge offset (offset + data.length) chunkSize c - offset) = some rows := by
  induction m with
  | zero =>
    intro c _ _
    exact ⟨[], rfl⟩
  | succ m ih =>
    intro c h1 h2
    have hlast : (offset + data.length - 1) / chunkSize < 2 ^ 63 :=
      (Nat.div_le_self _ _).trans_lt (by omega)
    obtain ⟨v, hv⟩ := checking_mergeChunk hk hdata hb existing h1 (by omega)
    obtain ⟨rows, hrows⟩ := ih (c + 1) (by omega) (by omega)
    refine ⟨((c : ℤ), v) :: rows, ?_⟩
    rw [List.range'_succ, Checking.writeLoop, hv]
    simp only [Option.bind_eq_bind, Option.bind_some, hrows,
      Checked.toSigned_of_lt (show c < 2 ^ 63 by omega)]
    rfl

end Window

/-- Writing has a result with checks, and the new size does not turn negative, if and only if the
old one does not, and there is nothing to write or the chunks have a size and the end of what is
written does not turn negative either. -/
theorem checking_writeRange_iff {data : Bytes} {offset fileSize : ℕ} :
    (∃ rows newSize, Checking.writeRange d inode data offset fileSize chunkSize
        = some (rows, newSize) ∧ newSize < 2 ^ 63) ↔
      fileSize < 2 ^ 63 ∧ (data = [] ∨ 0 < chunkSize ∧ offset + data.length < 2 ^ 63) := by
  unfold Checking.writeRange
  by_cases hdata : data = []
  · rw [if_pos hdata, and_iff_left (Or.inl hdata)]
    constructor
    · rintro ⟨rows, newSize, hrun, hsize⟩
      cases hrun
      exact hsize
    · exact fun hsize => ⟨_, _, rfl, hsize⟩
  rw [if_neg hdata, or_iff_right hdata]
  constructor
  · rintro ⟨rows, newSize, hrun, hsize⟩
    simp only [Option.bind_eq_bind, Option.bind_eq_some_iff, Checked.add_eq_some,
      Checked.div_eq_some, Option.pure_def, Option.some.injEq, Prod.mk.injEq] at hrun
    obtain ⟨first, ⟨hk, -⟩, sum, ⟨-, rfl⟩, top, -, last, -, -, -, -, -, rows', -, -, rfl⟩ := hrun
    rw [max_lt_iff] at hsize
    exact ⟨hsize.1, hk, hsize.2⟩
  · rintro ⟨hsize, hk, hb⟩
    have hlen : 0 < data.length := List.length_pos_of_ne_nil hdata
    have hlast : (offset + data.length - 1) / chunkSize < 2 ^ 63 :=
      (Nat.div_le_self _ _).trans_lt (by omega)
    have hfirst : offset / chunkSize ≤ (offset + data.length - 1) / chunkSize :=
      Nat.div_le_div_right (by omega)
    obtain ⟨rows, hrows⟩ := checking_writeLoop hk hdata hb
      (selectChunks d inode (offset / chunkSize) ((offset + data.length - 1) / chunkSize))
      ((offset + data.length - 1) / chunkSize + 1 - offset / chunkSize) (offset / chunkSize) le_rfl
      (by omega)
    rw [Chunks.edge_first (by omega), Nat.sub_self] at hrows
    refine ⟨rows, _, ?_, max_lt hsize hb⟩
    simp only [Checked.div_of_pos hk, Checked.add_of_lt (hb.trans (by decide)),
      Checked.sub_of_le (show 1 ≤ offset + data.length by omega), Checked.toSigned_of_lt hlast,
      Checked.toSigned_of_lt (hfirst.trans_lt hlast), Option.bind_eq_bind, Option.bind_some,
      inclusive, hrows]
    rfl

/-! ### The results are those without checks -/

section Agree
variable {present : List (ℕ × Bytes)} {a b : ℕ} {out : Bytes}

lemma slice_eq {data : Bytes} {lo hi : ℕ} (h : lo ≤ hi ∧ hi ≤ data.length) :
    slice data lo hi = .ok ((data.drop lo).take (hi - lo)) := if_pos h

lemma readChunk_of_checking {c : ℕ} (hb : b < 2 ^ 64)
    (h : Checking.readChunk present a b chunkSize c = some out) :
    readChunk present a b chunkSize c = .ok out := by
  simp only [Checking.readChunk, Option.bind_eq_bind, Option.bind_eq_some_iff, Checked.mul_eq_some,
    Checked.sub_eq_some] at h
  obtain ⟨-, ⟨hmul, rfl⟩, -, ⟨hle, rfl⟩, -, ⟨hlohi, rfl⟩, h⟩ := h
  have hhi : min (b - c * chunkSize) chunkSize < 2 ^ 64 := by omega
  simp only [readChunk, U64.mul_of_lt hmul, U64.sub_of_le hle hb, U64.sub_of_le hlohi hhi]
  cases hdata : present.lookup c with
  | none =>
    rw [hdata] at h
    exact congrArg Except.ok (Option.some.inj h)
  | some data =>
    rw [hdata] at h
    simp only [Checking.padded, Option.bind_eq_bind, Option.bind_eq_some_iff, Checked.slice_eq_some,
      Checked.sub_eq_some] at h
    obtain ⟨-, ⟨hslice, rfl⟩, -, ⟨-, rfl⟩, -, ⟨hpad, rfl⟩, h⟩ := h
    dsimp only
    rw [slice_eq hslice, U64.sub_of_le hpad (by omega)]
    exact congrArg Except.ok (Option.some.inj h)

lemma readLoop_of_checking {cids : List ℕ} (hb : b < 2 ^ 64) {acc : Bytes}
    (h : Checking.readLoop present a b chunkSize acc cids = some out) :
    cids.foldlM (fun out cid => return out ++ (← readChunk present a b chunkSize cid)) acc
      = (.ok out : Res Bytes) := by
  induction cids generalizing acc with
  | nil =>
    obtain rfl := Option.some.inj h
    rfl
  | cons c cids ih =>
    rw [Checking.readLoop, Option.bind_eq_bind, Option.bind_eq_some_iff] at h
    obtain ⟨piece, hpiece, h⟩ := h
    rw [List.foldlM_cons, readChunk_of_checking hb hpiece]
    exact ih h

/-- What reading finds with checks it finds without, in a file whose size is not negative. -/
theorem readRange_of_checking {offset size fileSize : ℕ} (hfile : fileSize < 2 ^ 63)
    (h : Checking.readRange d inode offset size fileSize chunkSize = some out) :
    readRange d inode offset size fileSize chunkSize = .ok out := by
  unfold Checking.readRange at h
  by_cases hempty : offset ≥ fileSize ∨ size = 0
  · rw [if_pos hempty] at h
    obtain rfl := Option.some.inj h
    exact readRange_empty hempty
  rw [if_neg hempty] at h
  simp only [Option.bind_eq_bind, Option.bind_eq_some_iff, Checked.add_eq_some, Checked.sub_eq_some,
    Checked.div_eq_some] at h
  obtain ⟨-, ⟨hsum, rfl⟩, -, ⟨hle, -⟩, -, ⟨hk, rfl⟩, -, ⟨hone, rfl⟩, -, ⟨-, rfl⟩, -, -, -, -, h⟩ := h
  have hend : min (offset + size) fileSize < 2 ^ 64 := by omega
  unfold readRange
  rw [if_neg hempty, U64.add_of_lt hsum]
  simp only [U64.sub_of_le hle hend, U64.sub_of_le hone hend, div_ok hk,
    reserve_ok (show min (offset + size) fileSize - offset < 2 ^ 63 by omega)]
  exact readLoop_of_checking hend h

/-- Store the rows. -/
def storeRows (inode : ℕ) : List (ℤ × Bytes) → Sql PUnit
  | [] => pure ⟨⟩
  | row :: rows => do
    stmt fun d => d.putBlob inode row.1 row.2
    storeRows inode rows

lemma mergeChunk_of_checking {data : Bytes} {offset n cursor c : ℕ} {merged : Bytes × ℕ}
    (hoffset : offset < 2 ^ 63)
    (h : Checking.mergeChunk present data offset n chunkSize cursor c = some merged) :
    mergeChunk present data offset n chunkSize cursor c = .ok merged := by
  simp only [Checking.mergeChunk, Option.bind_eq_bind, Option.bind_eq_some_iff, Checked.mul_eq_some,
    Checked.add_eq_some, Checked.sub_eq_some, Checked.slice_eq_some] at h
  obtain ⟨-, ⟨hmul, rfl⟩, -, ⟨hsum, rfl⟩, -, ⟨hle, rfl⟩, -, ⟨hlohi, rfl⟩, -, ⟨-, rfl⟩, -,
    ⟨hnext, rfl⟩, -, ⟨hslice, rfl⟩, h⟩ := h
  have hhi : min (offset + n - c * chunkSize) chunkSize < 2 ^ 64 :=
    (Nat.min_le_left _ _).trans_lt ((Nat.sub_le _ _).trans_lt hsum)
  have hlo : min (offset - c * chunkSize) chunkSize < 2 ^ 63 := by omega
  have hgrow : ∀ v : Bytes, growTo v (min (offset - c * chunkSize) chunkSize)
      = .ok (Checking.growTo v (min (offset - c * chunkSize) chunkSize)) := by
    intro v
    unfold growTo Checking.growTo
    split_ifs
    · rw [reserve_ok hlo]
      rfl
    · rfl
  simp only [mergeChunk, U64.mul_of_lt hmul, U64.add_of_lt hsum, U64.sub_of_le hle hsum,
    U64.sub_of_le hlohi hhi, hgrow, U64.add_of_lt hnext, slice_eq hslice]
  rw [← Option.some.inj h]
  have hall : ∀ v : Bytes, ∀ i, (v.drop i).take (v.length - i) = v.drop i := by
    intro v i
    rw [← List.length_drop, List.take_length]
  rw [hall]
  rfl

lemma writeLoop_of_checking {data : Bytes} {offset n cursor : ℕ} {cids : List ℕ}
    {rows : List (ℤ × Bytes)} (hoffset : offset < 2 ^ 63)
    (h : Checking.writeLoop present data offset n chunkSize cids cursor = some rows) :
    writeLoop inode present data offset n chunkSize cids cursor = storeRows inode rows := by
  induction cids generalizing cursor rows with
  | nil =>
    obtain rfl := Option.some.inj h
    rfl
  | cons c cids ih =>
    simp only [Checking.writeLoop, Option.bind_eq_bind, Option.bind_eq_some_iff,
      Checked.toSigned_eq_some] at h
    obtain ⟨merged, hmerged, -, ⟨hc, rfl⟩, rest, hrest, h⟩ := h
    obtain rfl := Option.some.inj h
    funext d'
    rw [writeLoop, mergeChunk_of_checking hoffset hmerged, U64.toI64_of_lt hc, storeRows,
      ← ih hrest]
    rfl

/-- What writing stores with checks it stores without, if the new size is not negative. -/
theorem writeRange_of_checking {data : Bytes} {offset fileSize newSize : ℕ}
    {rows : List (ℤ × Bytes)} (hsize : newSize < 2 ^ 63)
    (h : Checking.writeRange d inode data offset fileSize chunkSize = some (rows, newSize)) :
    writeRange inode data offset fileSize chunkSize d
      = (storeRows inode rows >>= fun _ => pure newSize) d := by
  unfold Checking.writeRange at h
  by_cases hdata : data = []
  · rw [if_pos hdata] at h
    cases h
    unfold writeRange
    rw [if_pos hdata]
    rfl
  rw [if_neg hdata] at h
  simp only [Option.bind_eq_bind, Option.bind_eq_some_iff, Checked.add_eq_some, Checked.sub_eq_some,
    Checked.div_eq_some] at h
  obtain ⟨-, ⟨hk, rfl⟩, -, ⟨hsum, rfl⟩, -, ⟨hone, rfl⟩, -, ⟨-, rfl⟩, -, -, -, -, rows', hrows, h⟩ := h
  cases h
  have hoffset : offset < 2 ^ 63 := by
    have := le_max_right fileSize (offset + data.length)
    omega
  unfold writeRange
  rw [if_neg hdata, U64.add_of_lt hsum, U64.sub_of_le hone hsum, div_ok hk, div_ok hk]
  rw [← writeLoop_of_checking hoffset hrows]
  rfl

end Agree

end Blobs

end SqliteFs
