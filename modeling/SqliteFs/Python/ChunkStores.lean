import SqliteFs.Python.Blobs
import SqliteFs.Blobs.Runs

/-!
# Two chunk stores, one format

The Rust port and the Python library keep the same rows for the same calls: where one wraps around
and saturates, the other computes with integers and cuts slices short, but within the range of 63
bits they merge, cut and read every chunk alike, whatever rows they start from.
-/

namespace SqliteFs

open Txn

namespace Python

namespace Blobs

open SqliteFs.Blobs (chunk? chunk merged BlobCall I64_MAX)
open Chunks

variable {d : SqliteFs.Db} {p : Db} {inode chunkSize : ℕ}

/-! ### Integers that are natural numbers -/

lemma index_natCast (n i : ℕ) : index n i = min i n := by
  unfold index
  rw [if_neg (by omega), Int.toNat_natCast]

lemma slice_natCast (data : Bytes) (lo hi : ℕ) : slice data lo hi = (data.take hi).drop lo := by
  unfold slice
  rw [index_natCast, index_natCast, ← List.take_eq_take_min]
  by_cases h : lo ≤ data.length
  · rw [Nat.min_eq_left h]
  · have hlen : (data.take hi).length ≤ data.length := (List.length_take_le' _ _)
    rw [List.drop_eq_nil_of_le (by omega), List.drop_eq_nil_of_le (by omega)]

lemma range_natCast (first last : ℕ) :
    range first ((last : ℤ) + 1) = (List.range' first (last + 1 - first)).map Nat.cast := by
  have hlen : ((last : ℤ) + 1 - first).toNat = last + 1 - first := by omega
  unfold range
  rw [hlen, List.range'_eq_map_range, List.map_map]
  refine List.map_congr_left fun k _ => ?_
  rw [Function.comp_apply, Nat.cast_add]

lemma floorDiv_natCast {a b : ℕ} (hb : 0 < b) : floorDiv a b = .ok ((a / b : ℕ) : ℤ) := by
  unfold floorDiv
  rw [if_neg (by omega), Int.fdiv_eq_ediv_of_nonneg _ (by omega)]
  rfl

lemma mod_natCast {a b : ℕ} (hb : 0 < b) : mod a b = .ok ((a % b : ℕ) : ℤ) := by
  unfold mod
  rw [if_neg (by omega), Int.fmod_eq_emod_of_nonneg _ (by omega)]
  rfl

lemma storable_natCast {n : ℕ} (h : n < 2 ^ 63) : Storable n := by
  unfold Storable
  omega

/-! ### Selecting -/

/-- The selection for a window has every chunk of the window. -/
lemma lookup_selectChunks (hp : p.blobs = d.blobs) {first last i : ℤ} (h1 : first ≤ i)
    (h2 : i ≤ last) : (selectChunks p inode first last).lookup i = chunk? d inode i := by
  have hmem : ∀ v, (i, v) ∈ selectChunks p inode first last ↔ chunk? d inode i = some v := by
    intro v
    simp only [selectChunks, List.mem_map, Prod.mk.injEq, KeyTable.mem_select, chunk?, hp,
      Option.map_eq_some_iff, KeyTable.find?_eq_some, decide_eq_true_eq, key_blobsRow]
    constructor
    · rintro ⟨r, ⟨hr, rfl, -, -⟩, rfl, rfl⟩
      exact ⟨r, ⟨hr, rfl, rfl⟩, rfl⟩
    · rintro ⟨r, ⟨hr, rfl, rfl⟩, rfl⟩
      exact ⟨r, ⟨hr, rfl, h1, h2⟩, rfl, rfl⟩
  cases hc : chunk? d inode i with
  | some v =>
    refine SqliteFs.Blobs.lookup_eq_some ((hmem v).mpr hc) fun v' hv' => ?_
    rw [(hmem v').mp hv'] at hc
    exact Option.some.inj hc
  | none =>
    rw [List.lookup_eq_none_iff]
    rintro ⟨j, v⟩ hjv
    by_contra hne
    have hij : i = j := by simpa using hne
    subst hij
    rw [(hmem v).mp hjv] at hc
    cases hc

/-! ### Reading -/

section Window
variable {a b : ℕ} (hk : 0 < chunkSize) (hab : a < b)
include hk

/-- Where the window begins and ends in chunk `c`. -/
lemma bounds_natCast {c : ℕ} (h1 : a / chunkSize ≤ c) (h2 : c ≤ (b - 1) / chunkSize) :
    max 0 ((a : ℤ) - c * chunkSize) = (min (a - c * chunkSize) chunkSize : ℕ) ∧
      min (chunkSize : ℤ) (b - c * chunkSize) = (min (b - c * chunkSize) chunkSize : ℕ) := by
  have hc : c * chunkSize ≤ b - 1 := (Nat.le_div_iff_mul_le hk).mp h2
  have ha : a < (c + 1) * chunkSize := (Nat.div_lt_iff_lt_mul hk).mp (Nat.lt_succ_of_le h1)
  rw [Nat.add_mul, Nat.one_mul] at ha
  have hcast : (c : ℤ) * chunkSize = ((c * chunkSize : ℕ) : ℤ) := (Nat.cast_mul c chunkSize).symm
  rw [hcast]
  omega

include hab

/-- A round of the reading loop yields the bytes of the window that fall into its chunk. -/
lemma readChunk_natCast {present : List (ℤ × Bytes)} {c : ℕ} (h1 : a / chunkSize ≤ c)
    (h2 : c ≤ (b - 1) / chunkSize) (hpresent : present.lookup (c : ℤ) = chunk? d inode c) :
    readChunk present a b chunkSize c = Flat.segment (value 0 (chunk d inode) chunkSize)
      (edge a b chunkSize c) (edge a b chunkSize (c + 1)) := by
  have hle := edge_le_succ (a := a) (b := b) (k := chunkSize) (c := c)
  rw [edge_eq_lo hk hab h1 h2, edge_succ_eq_hi hk h1 h2] at hle ⊢
  obtain ⟨hlo, hhi⟩ := bounds_natCast hk h1 h2
  rw [segment_value 0 _ (Nat.min_le_right _ _), Flat.segment.getD_list]
  have hdata : (present.lookup (c : ℤ)).getD [] = chunk d inode c := by
    rw [hpresent]
    rfl
  unfold readChunk
  simp only [hlo, hhi, hdata, slice_natCast]
  generalize min (a - c * chunkSize) chunkSize = lo at *
  generalize min (b - c * chunkSize) chunkSize = hi at *
  have hpiece : ((chunk d inode c).take hi).drop lo = ((chunk d inode c).drop
      (min lo (chunk d inode c).length)).take
        (min hi (chunk d inode c).length - min lo (chunk d inode c).length) := by
    rw [List.take_drop, show min lo (chunk d inode c).length + (min hi (chunk d inode c).length
      - min lo (chunk d inode c).length) = min hi (chunk d inode c).length by omega,
      ← slice_natCast, slice, index_natCast, index_natCast]
  have hlen : (((chunk d inode c).take hi).drop lo).length
      = min hi (chunk d inode c).length - min lo (chunk d inode c).length := by
    rw [hpiece, List.length_take, List.length_drop]
    omega
  split_ifs with hshort
  · have hpad : ((hi : ℤ) - lo - (((chunk d inode c).take hi).drop lo).length).toNat
        = hi - lo - (min hi (chunk d inode c).length - min lo (chunk d inode c).length) := by
      rw [hlen]
      omega
    rw [zeros, hpad, hpiece]
  · rw [hpiece, show hi - lo - (min hi (chunk d inode c).length - min lo (chunk d inode c).length) = 0
      by omega, List.replicate_zero, List.append_nil]

/-- The pieces of the reading loop, from chunk `c` on. -/
lemma flatten_readChunk {present : List (ℤ × Bytes)}
    (hpresent : ∀ c : ℕ, a / chunkSize ≤ c → c ≤ (b - 1) / chunkSize →
      present.lookup (c : ℤ) = chunk? d inode c) (m : ℕ) :
    ∀ c, a / chunkSize ≤ c → c + m ≤ (b - 1) / chunkSize + 1 →
      (((List.range' c m).map Nat.cast).map (readChunk present a b chunkSize)).flatten
        = Flat.segment (value 0 (chunk d inode) chunkSize)
          (edge a b chunkSize c) (edge a b chunkSize (c + m)) := by
  induction m with
  | zero =>
    intro c _ _
    simp
  | succ m ih =>
    intro c h1 h2
    rw [List.range'_succ, List.map_cons, List.map_cons, List.flatten_cons,
      readChunk_natCast hk hab h1 (by omega) (hpresent c h1 (by omega)),
      ih (c + 1) (by omega) (by omega), Flat.segment.append edge_le_succ,
      show c + 1 + m = c + (m + 1) by omega]
    unfold edge
    have : (c + 1) * chunkSize ≤ (c + 1 + m) * chunkSize := Nat.mul_le_mul_right _ (by omega)
    omega

end Window

lemma readRange_run {offset size fileSize chunkSize first last : ℤ} {result : Bytes}
    (hempty : ¬ (offset ≥ fileSize ∨ size = 0)) (hfirst : floorDiv offset chunkSize = .ok first)
    (hlast : floorDiv (min (offset + size) fileSize - 1) chunkSize = .ok last)
    (hparams : bindParams [first, last] = .ok ⟨⟩)
    (hparts : ((range first (last + 1)).map (readChunk (selectChunks p inode first last) offset
      (min (offset + size) fileSize) chunkSize)).flatten = result)
    (hlen : (result.length : ℤ) = min (offset + size) fileSize - offset) :
    readRange p inode offset size fileSize chunkSize = .ok result := by
  unfold readRange
  rw [if_neg hempty]
  simp only [hfirst, hlast, hparams, hparts, hlen, check, if_true, bind, Except.bind, pure,
    Except.pure]

/-- Both read the same bytes from the same rows. -/
theorem readRange_agrees (hp : p.blobs = d.blobs) (hk : 0 < chunkSize) {offset n fileSize : ℕ}
    (hf : fileSize < 2 ^ 63) (hos : offset + n < 2 ^ 64) :
    ∃ bytes, SqliteFs.Blobs.readRange d inode offset n fileSize chunkSize = .ok bytes ∧
      readRange p inode offset n fileSize chunkSize = .ok bytes := by
  by_cases hempty : offset ≥ fileSize ∨ n = 0
  · refine ⟨[], SqliteFs.Blobs.readRange_empty hempty, if_pos ?_⟩
    omega
  · refine ⟨_, SqliteFs.Blobs.readRange_ok hk hf hos (by omega) (by omega), ?_⟩
    have hend : min ((offset : ℤ) + n) fileSize = (min (offset + n) fileSize : ℕ) := by omega
    generalize hb : min (offset + n) fileSize = b at hend ⊢
    have hab : offset < b := by omega
    have hlast : ((b : ℤ) - 1) = (b - 1 : ℕ) := by omega
    have hlast63 : (b - 1) / chunkSize < 2 ^ 63 := (Nat.div_le_self _ _).trans_lt (by omega)
    have hfl : offset / chunkSize ≤ (b - 1) / chunkSize := Nat.div_le_div_right (by omega)
    have hpresent : ∀ c : ℕ, offset / chunkSize ≤ c → c ≤ (b - 1) / chunkSize →
        (selectChunks p inode (offset / chunkSize : ℕ) ((b - 1) / chunkSize : ℕ)).lookup (c : ℤ)
          = chunk? d inode c :=
      fun c h1 h2 => lookup_selectChunks hp (Int.ofNat_le.mpr h1) (Int.ofNat_le.mpr h2)
    have hparts := flatten_readChunk hk hab hpresent
      ((b - 1) / chunkSize + 1 - offset / chunkSize) (offset / chunkSize) le_rfl (by omega)
    rw [show offset / chunkSize + ((b - 1) / chunkSize + 1 - offset / chunkSize)
      = (b - 1) / chunkSize + 1 by omega, edge_first hab, edge_last hk hab,
      ← range_natCast] at hparts
    refine readRange_run (by omega) (floorDiv_natCast hk) ?_ ?_ (hend ▸ hparts) ?_
    · rw [hend, hlast]
      exact floorDiv_natCast hk
    · rw [bindParams_eq_ok]
      intro i hi
      simp only [List.mem_cons, List.not_mem_nil, or_false] at hi
      rcases hi with rfl | rfl
      · exact storable_natCast (by omega)
      · exact storable_natCast hlast63
    · rw [Flat.segment.length, hend]
      omega

/-! ### Writing -/

section Window
variable {data : Bytes} {offset : ℕ} (hk : 0 < chunkSize) (hdata : data ≠ [])
include hk hdata

/-- A round of the writing loop overwrites the part of its chunk that lies in the window. -/
lemma mergeChunk_natCast {existing : List (ℤ × Bytes)} {c : ℕ} (h1 : offset / chunkSize ≤ c)
    (h2 : c ≤ (offset + data.length - 1) / chunkSize)
    (he : existing.lookup (c : ℤ) = chunk? d inode c) :
    mergeChunk existing data offset chunkSize
        (edge offset (offset + data.length) chunkSize c - offset : ℕ) c
      = (merged d inode chunkSize data offset c,
          ((edge offset (offset + data.length) chunkSize (c + 1) - offset : ℕ) : ℤ)) := by
  have hlen : 0 < data.length := List.length_pos_of_ne_nil hdata
  have hab : offset < offset + data.length := by omega
  have hle := edge_le_succ (a := offset) (b := offset + data.length) (k := chunkSize) (c := c)
  have hlo := edge_eq_lo hk hab h1 h2
  have hhi := edge_succ_eq_hi hk h1 h2
  have hge := le_edge (b := offset + data.length) (k := chunkSize) (c := c) hab.le
  have hup := edge_le (a := offset) (b := offset + data.length) (k := chunkSize) (c := c + 1)
  obtain ⟨hlo', hhi'⟩ := bounds_natCast hk h1 h2
  have hold : (existing.lookup (c : ℤ)).getD [] = chunk d inode c := by
    rw [he]
    rfl
  have hcast : ((offset : ℤ) + data.length) = ((offset + data.length : ℕ) : ℤ) :=
    (Nat.cast_add _ _).symm
  unfold merged mergeChunk
  simp only [hcast, hlo', hhi', hold]
  generalize edge offset (offset + data.length) chunkSize c = first at *
  generalize edge offset (offset + data.length) chunkSize (c + 1) = last at *
  generalize min (offset - c * chunkSize) chunkSize = lo at *
  generalize min (offset + data.length - c * chunkSize) chunkSize = hi at *
  have hcursor : ((first - offset : ℕ) : ℤ) + ((hi : ℤ) - lo) = ((last - offset : ℕ) : ℤ) := by
    omega
  have hgrown : (if ((chunk d inode c).length : ℤ) < lo
      then chunk d inode c ++ zeros (lo - (chunk d inode c).length) else chunk d inode c)
        = chunk d inode c ++ List.replicate (lo - (chunk d inode c).length) 0 := by
    split_ifs with hshort
    · unfold zeros
      congr 2
      omega
    · rw [show lo - (chunk d inode c).length = 0 by omega, List.replicate_zero, List.append_nil]
  have hpiece : (data.take (last - offset)).drop (first - offset)
      = Flat.segment (fun i => data.getD i 0) (first - offset) (last - offset) := by
    rw [Flat.segment.getD_list, show min (first - offset) data.length = first - offset by omega,
      show min (last - offset) data.length = last - offset by omega, Nat.sub_self,
      List.replicate_zero, List.append_nil, List.take_drop,
      show first - offset + (last - offset - (first - offset)) = last - offset by omega]
  rw [hcursor, hgrown, show (0 : ℤ) = (0 : ℕ) from rfl, slice_natCast, slice_natCast,
    slice_natCast, List.take_length, List.drop_zero, hpiece]
  refine Prod.ext ?_ rfl
  generalize hbig : chunk d inode c ++ List.replicate (lo - (chunk d inode c).length) 0 = big
  have hbiglen : big.length = (chunk d inode c).length + (lo - (chunk d inode c).length) := by
    rw [← hbig, List.length_append, List.length_replicate]
  have hdrop : big.drop hi = big.drop (min hi big.length) := by
    by_cases hshort : hi ≤ big.length
    · rw [Nat.min_eq_left hshort]
    · rw [List.drop_eq_nil_of_le (by omega), List.drop_eq_nil_of_le (by omega)]
  rw [hdrop, ← hbig]
  refine overwrite_grown _ _ _ _ ?_
  rw [Flat.segment.length, List.length_append, List.length_replicate]
  omega

/-- The rows that a write makes of the `m` chunks from `c` on. -/
def mergedRows (d : SqliteFs.Db) (inode chunkSize : ℕ) (data : Bytes) (offset c m : ℕ) :
    List (ℤ × Bytes) :=
  (List.range' c m).map fun (i : ℕ) => ((i : ℤ), merged d inode chunkSize data offset i)

/-- The rows that the writing loop lists, from chunk `c` on. -/
lemma mergeLoop_natCast {existing : List (ℤ × Bytes)}
    (he : ∀ c : ℕ, offset / chunkSize ≤ c → c ≤ (offset + data.length - 1) / chunkSize →
      existing.lookup (c : ℤ) = chunk? d inode c) (m : ℕ) :
    ∀ c, offset / chunkSize ≤ c → c + m ≤ (offset + data.length - 1) / chunkSize + 1 →
      mergeLoop existing data offset chunkSize ((List.range' c m).map Nat.cast)
          (edge offset (offset + data.length) chunkSize c - offset : ℕ)
        = mergedRows d inode chunkSize data offset c m := by
  induction m with
  | zero => exact fun _ _ _ => rfl
  | succ m ih =>
    intro c h1 h2
    rw [mergedRows, List.range'_succ, List.map_cons, List.map_cons, mergeLoop,
      mergeChunk_natCast hk hdata h1 (by omega) (he c h1 (by omega)),
      ih (c + 1) (by omega) (by omega)]
    rfl

end Window

/-- The table after rows of `inode` have been put into it. -/
def putRows (t : KeyTable BlobsRow) (inode : ℕ) (rows : List (ℤ × Bytes)) : KeyTable BlobsRow :=
  rows.foldl (fun t r => t.put ⟨inode, r.1, r.2⟩) t

lemma putAll_ok (rows : List (ℤ × Bytes)) : ∀ {p : Db}, p.hasNode inode = true →
    putAll inode rows p = .ok (⟨⟩, { p with blobs := putRows p.blobs inode rows }) := by
  induction rows with
  | nil => exact fun _ => rfl
  | cons r rows ih =>
    intro p hnode
    have hput : p.putBlob inode r.1 r.2 = some { p with blobs := p.blobs.put ⟨inode, r.1, r.2⟩ } :=
      if_pos hnode
    exact execute_bind_eq_ok.mpr ⟨_, hput, ih hnode⟩

section Window
variable {data : Bytes} {offset : ℕ} (hk : 0 < chunkSize) (hdata : data ≠ [])
  (hb : offset + data.length < 2 ^ 63)
include hk hdata hb

/-- The writing loop of the Rust port puts the merged chunks one by one. -/
lemma writeLoop_rows {existing : List (ℕ × Bytes)}
    (he : ∀ c, offset / chunkSize ≤ c → c ≤ (offset + data.length - 1) / chunkSize →
      (existing.lookup c).getD [] = chunk d inode c) (m : ℕ) :
    ∀ (c : ℕ) (d₁ : SqliteFs.Db), offset / chunkSize ≤ c →
      c + m ≤ (offset + data.length - 1) / chunkSize + 1 → d₁.hasNode inode = true →
      SqliteFs.Blobs.writeLoop inode existing data offset data.length chunkSize (List.range' c m)
          (edge offset (offset + data.length) chunkSize c - offset) d₁
        = .ok (⟨⟩, { d₁ with
          blobs := putRows d₁.blobs inode (mergedRows d inode chunkSize data offset c m) }) := by
  induction m with
  | zero => exact fun _ _ _ _ _ => rfl
  | succ m ih =>
    intro c d₁ h1 h2 hnode
    have hlast : (offset + data.length - 1) / chunkSize < 2 ^ 63 :=
      (Nat.div_le_self _ _).trans_lt (by omega)
    have hmerge := SqliteFs.Blobs.mergeChunk_ok d inode hk hdata hb h1 (by omega)
      (he c h1 (by omega))
    have hput : d₁.putBlob inode (U64.toI64 c) (merged d inode chunkSize data offset c) = .ok _ :=
      SqliteFs.Db.putBlob_eq_ok.mpr ⟨hnode, rfl⟩
    rw [List.range'_succ]
    refine Body.ask_bind_eq_ok.mpr ⟨_, hmerge, stmt_bind_eq_ok.mpr ⟨_, hput, ?_⟩⟩
    rw [U64.toI64_of_lt (by omega : c < 2 ^ 63)]
    exact ih (c + 1) _ (by omega) (by omega) hnode

/-- With a node, both writes put the same rows. -/
lemma writeRange_rows {size : ℕ} (hp : p.blobs = d.blobs) (hd : d.hasNode inode = true)
    (hpnode : p.hasNode inode = true) : ∃ rows,
      SqliteFs.Blobs.writeRange inode data offset size chunkSize d
        = .ok (max size (offset + data.length), { d with blobs := putRows d.blobs inode rows }) ∧
      writeRange inode data offset size chunkSize p
        = .ok ((max size (offset + data.length) : ℕ),
          { p with blobs := putRows d.blobs inode rows }) := by
  have hlen : 0 < data.length := List.length_pos_of_ne_nil hdata
  have hadd : U64.add offset data.length = offset + data.length := U64.add_of_lt (by omega)
  have hsub : U64.sub (offset + data.length) 1 = offset + data.length - 1 :=
    U64.sub_of_le (by omega) (by omega)
  have hcast : (offset : ℤ) + data.length - 1 = (offset + data.length - 1 : ℕ) := by omega
  have hsize : max (size : ℤ) (offset + data.length) = (max size (offset + data.length) : ℕ) := by
    omega
  have hfirst63 : offset / chunkSize < 2 ^ 63 := (Nat.div_le_self _ _).trans_lt (by omega)
  have hlast63 : (offset + data.length - 1) / chunkSize < 2 ^ 63 :=
    (Nat.div_le_self _ _).trans_lt (by omega)
  have hfl : offset / chunkSize ≤ (offset + data.length - 1) / chunkSize :=
    Nat.div_le_div_right (by omega)
  have hrustOld : ∀ c, offset / chunkSize ≤ c → c ≤ (offset + data.length - 1) / chunkSize →
      ((SqliteFs.Blobs.selectChunks d inode (offset / chunkSize)
        ((offset + data.length - 1) / chunkSize)).lookup c).getD [] = chunk d inode c := by
    intro c h1 h2
    rw [SqliteFs.Blobs.lookup_selectChunks hlast63 h1 h2]
    rfl
  have hold : ∀ c : ℕ, offset / chunkSize ≤ c → c ≤ (offset + data.length - 1) / chunkSize →
      (selectChunks p inode (offset / chunkSize : ℕ)
        ((offset + data.length - 1) / chunkSize : ℕ)).lookup (c : ℤ) = chunk? d inode c :=
    fun c h1 h2 => lookup_selectChunks hp (Int.ofNat_le.mpr h1) (Int.ofNat_le.mpr h2)
  have hrust := writeLoop_rows hk hdata hb hrustOld
    ((offset + data.length - 1) / chunkSize + 1 - offset / chunkSize) (offset / chunkSize) d le_rfl
    (by omega) hd
  have hmerged := mergeLoop_natCast hk hdata hold
    ((offset + data.length - 1) / chunkSize + 1 - offset / chunkSize) (offset / chunkSize) le_rfl
    (by omega)
  rw [edge_first (by omega), Nat.sub_self] at hrust hmerged
  refine ⟨mergedRows d inode chunkSize data offset (offset / chunkSize)
    ((offset + data.length - 1) / chunkSize + 1 - offset / chunkSize), ?_, ?_⟩
  · rw [SqliteFs.Blobs.writeRange, if_neg hdata]
    refine Body.ask_bind_eq_ok.mpr ⟨_, SqliteFs.Blobs.div_ok hk, Body.ask_bind_eq_ok.mpr ⟨_, ?_,
      Body.ask_bind_eq_ok.mpr ⟨_, rfl, Body.bind_eq_ok.mpr ⟨⟨⟩, _, hrust, ?_⟩⟩⟩⟩
    · rw [hadd, hsub, SqliteFs.Blobs.div_ok hk]
    · rw [hadd]
      exact Body.pure_eq_ok.mpr ⟨rfl, rfl⟩
  · rw [writeRange, if_neg hdata]
    refine Body.ask_bind_eq_ok.mpr ⟨_, floorDiv_natCast hk, Body.ask_bind_eq_ok.mpr
      ⟨((offset + data.length - 1) / chunkSize : ℕ), ?_, params_bind_eq_ok.mpr ⟨?_,
        Body.ask_bind_eq_ok.mpr ⟨_, rfl, ?_⟩⟩⟩⟩
    · rw [hcast, floorDiv_natCast hk]
    · intro i hi
      simp only [List.mem_cons, List.not_mem_nil, or_false] at hi
      rcases hi with rfl | rfl
      · exact storable_natCast hfirst63
      · exact storable_natCast hlast63
    · rw [range_natCast, show (0 : ℤ) = (0 : ℕ) from rfl, hmerged, hsize]
      refine Body.bind_eq_ok.mpr ⟨⟨⟩, _, putAll_ok _ hpnode, Body.pure_eq_ok.mpr ⟨rfl, ?_⟩⟩
      rw [hp]

end Window

/-! Without a node, no chunk can be put. -/

section NoNode
variable {data : Bytes} {offset size : ℕ}

lemma hasNode_of_writeLoop {existing : List (ℕ × Bytes)} {n c m cursor : ℕ} {r : PUnit × SqliteFs.Db}
    (h : SqliteFs.Blobs.writeLoop inode existing data offset n chunkSize (List.range' c (m + 1))
      cursor d = .ok r) : d.hasNode inode = true := by
  obtain ⟨u, d'⟩ := r
  rw [List.range'_succ] at h
  obtain ⟨merged, -, h⟩ := Body.ask_bind_eq_ok.mp h
  obtain ⟨d₁, hput, -⟩ := stmt_bind_eq_ok.mp h
  exact (SqliteFs.Db.putBlob_eq_ok.mp hput).1

lemma hasNode_of_putAll {x : ℤ × Bytes} {rows : List (ℤ × Bytes)} {r : PUnit × Db}
    (h : putAll inode (x :: rows) p = .ok r) : p.hasNode inode = true := by
  obtain ⟨u, p'⟩ := r
  obtain ⟨p₁, hput, -⟩ := execute_bind_eq_ok.mp h
  by_contra hnode
  unfold Db.putBlob at hput
  rw [if_neg hnode] at hput
  cases hput

variable (hk : 0 < chunkSize) (hdata : data ≠ [])
include hk hdata

lemma hasNode_of_writeRange {r : ℕ × SqliteFs.Db} (hb : offset + data.length < 2 ^ 63)
    (h : SqliteFs.Blobs.writeRange inode data offset size chunkSize d = .ok r) :
    d.hasNode inode = true := by
  have hlen : 0 < data.length := List.length_pos_of_ne_nil hdata
  rw [SqliteFs.Blobs.writeRange, if_neg hdata, U64.add_of_lt (by omega),
    U64.sub_of_le (by omega) (by omega)] at h
  obtain ⟨n, d'⟩ := r
  obtain ⟨first, hfirst, h⟩ := Body.ask_bind_eq_ok.mp h
  obtain ⟨last, hlast, h⟩ := Body.ask_bind_eq_ok.mp h
  obtain ⟨existing, -, h⟩ := Body.ask_bind_eq_ok.mp h
  obtain ⟨_, d₁, hloop, -⟩ := Body.bind_eq_ok.mp h
  rw [SqliteFs.Blobs.div_ok hk] at hfirst hlast
  cases hfirst
  cases hlast
  have hfl : offset / chunkSize ≤ (offset + data.length - 1) / chunkSize :=
    Nat.div_le_div_right (by omega)
  obtain ⟨m, hm⟩ := Nat.exists_eq_add_of_le hfl
  unfold SqliteFs.Blobs.inclusive at hloop
  rw [show (offset + data.length - 1) / chunkSize + 1 - offset / chunkSize = m + 1 by omega] at hloop
  exact hasNode_of_writeLoop hloop

lemma hasNode_of_writeRange' {r : ℤ × Db}
    (h : writeRange inode data offset size chunkSize p = .ok r) : p.hasNode inode = true := by
  have hlen : 0 < data.length := List.length_pos_of_ne_nil hdata
  have hcast : (offset : ℤ) + data.length - 1 = (offset + data.length - 1 : ℕ) := by omega
  rw [writeRange, if_neg hdata, hcast, floorDiv_natCast hk, floorDiv_natCast hk] at h
  obtain ⟨n, d'⟩ := r
  obtain ⟨first, hfirst, h⟩ := Body.ask_bind_eq_ok.mp h
  obtain ⟨last, hlast, h⟩ := Body.ask_bind_eq_ok.mp h
  obtain ⟨-, h⟩ := params_bind_eq_ok.mp h
  obtain ⟨existing, -, h⟩ := Body.ask_bind_eq_ok.mp h
  obtain ⟨_, d₁, hput, -⟩ := Body.bind_eq_ok.mp h
  cases hfirst
  cases hlast
  have hfl : offset / chunkSize ≤ (offset + data.length - 1) / chunkSize :=
    Nat.div_le_div_right (by omega)
  obtain ⟨m, hm⟩ := Nat.exists_eq_add_of_le hfl
  rw [range_natCast, show (offset + data.length - 1) / chunkSize + 1 - offset / chunkSize = m + 1
    by omega, List.range'_succ] at hput
  exact hasNode_of_putAll hput

end NoNode

/-! ### Truncating -/

lemma truncateTo_natCast {newSize oldSize : ℕ} (hp : p.blobs = d.blobs) (hk : 0 < chunkSize)
    (hlt : newSize < oldSize) (h63 : newSize < 2 ^ 63) :
    truncateTo inode newSize oldSize chunkSize p
      = .ok (⟨⟩, { p with blobs := (SqliteFs.Blobs.shrunk d inode chunkSize newSize).blobs }) := by
  have hb63 : newSize / chunkSize < 2 ^ 63 := (Nat.div_le_self _ _).trans_lt h63
  have hparams : ∀ n ∈ [((newSize / chunkSize : ℕ) : ℤ)], Storable n := by
    intro n hn
    rw [List.mem_singleton.mp hn]
    exact storable_natCast hb63
  unfold truncateTo
  rw [if_neg (by omega), if_pos (by omega)]
  refine Body.ask_bind_eq_ok.mpr ⟨_, floorDiv_natCast hk, Body.ask_bind_eq_ok.mpr ⟨_,
    mod_natCast hk, params_bind_eq_ok.mpr ⟨hparams, update_bind_eq_ok.mpr ?_⟩⟩⟩
  unfold SqliteFs.Blobs.shrunk
  dsimp only
  by_cases hzero : newSize % chunkSize = 0
  · rw [if_pos (by omega), if_pos hzero]
    refine update_eq_ok.mpr ?_
    unfold Db.deleteBlobs SqliteFs.Db.deleteBlobs
    rw [hp]
  · rw [if_neg (by omega), if_neg hzero]
    refine Body.ask_bind_eq_ok.mpr ⟨_, rfl, ?_⟩
    unfold Db.deleteBlobs SqliteFs.Db.deleteBlobs SqliteFs.Db.updateBlob chunk chunk?
    rw [hp]
    dsimp only
    generalize d.blobs.deleteWhere _ = t
    cases hr : t.find? (inode, ((newSize / chunkSize : ℕ) : ℤ)) with
    | none =>
      refine Body.pure_eq_ok.mpr ⟨rfl, ?_⟩
      rw [KeyTable.updateAt_eq_self _ _ _ _ hr]
    | some r =>
      refine update_eq_ok.mpr ?_
      unfold Db.updateBlob
      dsimp only
      rw [show (0 : ℤ) = (0 : ℕ) from rfl, slice_natCast]
      rfl

/-! ### Runs of calls -/

/-- Make the call on a file of `size` bytes; the result is the file's size after it. -/
def runCall (inode : ℕ) (chunkSize : ℤ) : BlobCall → ℤ → Sql ℤ
  | .writeRange data offset, size => writeRange inode data offset size chunkSize
  | .truncateTo newSize, size => do
    truncateTo inode newSize size chunkSize
    return newSize

/-- Make the calls one after the other. -/
def runCalls (inode : ℕ) (chunkSize : ℤ) : List BlobCall → ℤ → Sql ℤ
  | [], size => pure size
  | call :: calls, size => do
    let size ← runCall inode chunkSize call size
    runCalls inode chunkSize calls size

/-- Both stores fail, or both return the same size and leave the same rows. -/
inductive SameOutcome : SqliteFs.Res (ℕ × SqliteFs.Db) → Res (ℤ × Db) → Prop
  | returned {n : ℕ} {d : SqliteFs.Db} {p : Db} : p.blobs = d.blobs →
      SameOutcome (.ok (n, d)) (.ok (n, p))
  | failed {e : SqliteFs.Halt} {f : Halt} : SameOutcome (.error e) (.error f)

/-- Both return the same size and the same rows, or neither returns, for lack of a node. -/
def Agree (d : SqliteFs.Db) (p : Db) (inode : ℕ) (r : SqliteFs.Res (ℕ × SqliteFs.Db))
    (q : Res (ℤ × Db)) : Prop :=
  (∃ n t, n ≤ I64_MAX ∧ r = .ok (n, { d with blobs := t }) ∧
    q = .ok ((n : ℤ), { p with blobs := t })) ∨
  (d.hasNode inode = false ∧ (∃ e, r = .error e) ∧ ∃ e, q = .error e)

/-- A call from the same rows. -/
lemma runCall_agrees {call : BlobCall} {size : ℕ} (hk : 0 < chunkSize) (hcall : call.InRange)
    (hp : p.blobs = d.blobs) (hnode : p.hasNode inode = d.hasNode inode) (hsize : size ≤ I64_MAX) :
    Agree d p inode (call.run inode chunkSize size d) (runCall inode chunkSize call size p) := by
  have hmax : I64_MAX < 2 ^ 63 := by decide
  cases call with
  | writeRange data offset =>
    have hcall' : offset + data.length ≤ I64_MAX := hcall
    have hb : offset + data.length < 2 ^ 63 := hcall'.trans_lt hmax
    by_cases hdata : data = []
    · refine Or.inl ⟨size, d.blobs, hsize, congrFun (if_pos hdata) d, ?_⟩
      rw [← hp]
      exact congrFun (if_pos hdata) p
    · cases hd : d.hasNode inode with
      | true =>
        obtain ⟨rows, hrust, hpython⟩ := writeRange_rows hk hdata hb hp hd (hnode.trans hd)
        exact Or.inl ⟨_, _, max_le hsize hcall', hrust, hpython⟩
      | false =>
        refine Or.inr ⟨hd, ?_, ?_⟩
        · cases hrun : BlobCall.run inode chunkSize (.writeRange data offset) size d with
          | error e => exact ⟨e, rfl⟩
          | ok r =>
            rw [hasNode_of_writeRange hk hdata hb hrun] at hd
            cases hd
        · cases hrun : runCall inode chunkSize (.writeRange data offset) size p with
          | error e => exact ⟨e, rfl⟩
          | ok r =>
            rw [← hnode, hasNode_of_writeRange' hk hdata hrun] at hd
            cases hd
  | truncateTo newSize =>
    have hcall' : newSize ≤ I64_MAX := hcall
    refine Or.inl ?_
    by_cases hlt : newSize < size
    · refine ⟨newSize, (SqliteFs.Blobs.shrunk d inode chunkSize newSize).blobs, hcall',
        Body.bind_eq_ok.mpr ⟨⟨⟩, _, SqliteFs.Blobs.truncateTo_ok hk hlt (hcall'.trans_lt hmax), ?_⟩,
        Body.bind_eq_ok.mpr ⟨⟨⟩, _, truncateTo_natCast hp hk hlt (hcall'.trans_lt hmax), rfl⟩⟩
      refine Body.pure_eq_ok.mpr ⟨rfl, ?_⟩
      unfold SqliteFs.Blobs.shrunk
      dsimp only
      split_ifs <;> rfl
    · have hrust : SqliteFs.Blobs.truncateTo inode newSize size chunkSize d = .ok (⟨⟩, d) :=
        congrFun (if_pos (not_lt.mp hlt)) d
      have hpython : truncateTo inode newSize size chunkSize p = .ok (⟨⟩, p) := by
        unfold truncateTo
        split_ifs
        · rfl
        · omega
        · rfl
      refine ⟨newSize, d.blobs, hcall', Body.bind_eq_ok.mpr ⟨⟨⟩, _, hrust, rfl⟩, ?_⟩
      rw [← hp]
      exact Body.bind_eq_ok.mpr ⟨⟨⟩, _, hpython, rfl⟩

lemma bind_error {δ ε α β : Type} {b : Body δ ε α} {f : α → Body δ ε β} {s : δ} {e : ε}
    (h : b s = .error e) : (b >>= f) s = .error e := by
  rw [Body.bind_apply, h]
  rfl

/-- A run from the same rows. -/
lemma runCalls_agrees (hk : 0 < chunkSize) (calls : List BlobCall) :
    ∀ {d : SqliteFs.Db} {p : Db} {size : ℕ}, (∀ call ∈ calls, call.InRange) → p.blobs = d.blobs →
      p.hasNode inode = d.hasNode inode → size ≤ I64_MAX →
      Agree d p inode (BlobCall.runAll inode chunkSize calls size d)
        (runCalls inode chunkSize calls size p) := by
  induction calls with
  | nil =>
    intro d p size _ hp _ hsize
    refine Or.inl ⟨size, d.blobs, hsize, rfl, ?_⟩
    rw [← hp]
    rfl
  | cons call calls ih =>
    intro d p size hcalls hp hnode hsize
    rcases runCall_agrees hk (hcalls call List.mem_cons_self) hp hnode hsize with
      ⟨n, t, hn, hrust, hpython⟩ | ⟨hd, ⟨e, hrust⟩, f, hpython⟩
    · rcases ih (fun c hc => hcalls c (List.mem_cons_of_mem _ hc)) (d := { d with blobs := t })
        (p := { p with blobs := t }) rfl hnode hn with
        ⟨n', t', hn', hrust', hpython'⟩ | ⟨hd, ⟨e, hrust'⟩, f, hpython'⟩
      · exact Or.inl ⟨n', t', hn', Body.bind_eq_ok.mpr ⟨n, _, hrust, hrust'⟩,
          Body.bind_eq_ok.mpr ⟨(n : ℤ), _, hpython, hpython'⟩⟩
      · refine Or.inr ⟨hd, ⟨e, ?_⟩, f, ?_⟩
        · unfold BlobCall.runAll
          rw [Body.bind_apply, hrust]
          exact hrust'
        · unfold runCalls
          rw [Body.bind_apply, hpython]
          exact hpython'
    · exact Or.inr ⟨hd, ⟨e, bind_error hrust⟩, f, bind_error hpython⟩

/-- Whatever rows they start from, after the same writes and truncations of a file the two stores
have the same rows and have returned the same size, or neither returns, which takes a file without
a node. And from what they have then, they read the same bytes. -/
theorem chunkStores_agree {size : ℕ} (hk : 1 ≤ chunkSize) (hp : p.blobs = d.blobs)
    (hnode : p.hasNode inode = d.hasNode inode) (hsize : size ≤ I64_MAX) (calls : List BlobCall)
    (hcalls : ∀ call ∈ calls, call.InRange) :
    SameOutcome (BlobCall.runAll inode chunkSize calls size d)
      (runCalls inode chunkSize calls size p) ∧
    (d.hasNode inode = true → ∃ r, BlobCall.runAll inode chunkSize calls size d = .ok r) ∧
    ∀ n d' p', BlobCall.runAll inode chunkSize calls size d = .ok (n, d') →
      runCalls inode chunkSize calls size p = .ok ((n : ℤ), p') →
      ∀ offset k, offset + k < 2 ^ 64 → ∃ bytes,
        SqliteFs.Blobs.readRange d' inode offset k n chunkSize = .ok bytes ∧
        readRange p' inode offset k n chunkSize = .ok bytes := by
  have hmax : I64_MAX < 2 ^ 63 := by decide
  rcases runCalls_agrees hk calls hcalls hp hnode hsize with
    ⟨n, t, hn, hrust, hpython⟩ | ⟨hd, ⟨e, hrust⟩, f, hpython⟩
  · rw [hrust, hpython]
    refine ⟨.returned rfl, fun _ => ⟨_, rfl⟩, fun n' d' p' hr hq offset k hk64 => ?_⟩
    cases hr
    cases hq
    exact readRange_agrees rfl hk (hn.trans_lt hmax) hk64
  · rw [hrust, hpython]
    refine ⟨.failed, fun hd' => ?_, fun n' d' p' hr => nomatch hr⟩
    rw [hd] at hd'
    cases hd'

/-- The database of the Rust port with one empty file, as the Python library reads it. -/
def oneFile : Db where
  chunkSize := 4
  nodes := (KeyTable.empty.insert? ⟨2, .file, 0o644, 0, 0, 0, 0, 0, 0, 1⟩).getD .empty
  nodesSeq := 2
  entries := .empty
  blobs := .empty
  xattrs := .empty
  symlinks := .empty

theorem chunkStores_agree_oneFile :
    SameOutcome (BlobCall.runAll 2 4 [.writeRange [1, 2, 3] 2, .truncateTo 3, .writeRange [4] 5] 0
      SqliteFs.Blobs.oneFile)
      (runCalls 2 (4 : ℕ) [.writeRange [1, 2, 3] 2, .truncateTo 3, .writeRange [4] 5] (0 : ℕ)
        oneFile) :=
  (chunkStores_agree (by decide) (by decide) (by decide) (by decide) _ (by decide)).1

end Blobs

end Python

end SqliteFs
