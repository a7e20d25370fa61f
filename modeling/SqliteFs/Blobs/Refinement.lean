import SqliteFs.Blobs.Basic
import SqliteFs.Lib.Chunks

/-!
# The chunk store refines a byte array

`Represents d inode chunkSize f` says that the `blobs` rows of `inode` stand for the byte array
`f`: read chunk by chunk, with zeros where a chunk is short or missing, they are the bytes of
`f`, and no row reaches beyond the end of `f`. The second part is what makes a shrink final:
no byte is left behind that a later growth could bring back.
-/

namespace SqliteFs

open Txn

namespace Blobs

/-- The data of the row for chunk `i`. -/
def chunk? (d : Db) (inode : ℕ) (i : ℤ) : Option Bytes :=
  (d.blobs.find? (inode, i)).map BlobsRow.data

/-- Chunk `c`, empty where there is no row. -/
def chunk (d : Db) (inode c : ℕ) : Bytes := (chunk? d inode c).getD []

/-- Every row of `inode` is a non-empty chunk that ends within a file of `size` bytes. -/
def Fits (d : Db) (inode chunkSize size : ℕ) : Prop :=
  ∀ i data, chunk? d inode i = some data →
    ∃ c : ℕ, i = c ∧ data ≠ [] ∧ data.length ≤ chunkSize ∧ c * chunkSize + data.length ≤ size

structure Represents (d : Db) (inode chunkSize : ℕ) (f : Bytes) : Prop where
  fits : Fits d inode chunkSize f.length
  bytes : ∀ x, Chunks.value 0 (chunk d inode) chunkSize x = f.getD x 0

variable {d : Db} {inode chunkSize : ℕ}

/-! ### Steps in range -/

lemma reserve_ok {n : ℕ} (h : n < 2 ^ 63) : reserve n = .ok () := if_pos h

lemma div_ok {a b : ℕ} (h : 0 < b) : div a b = .ok (a / b) := if_neg (by omega)

lemma rem_ok {a b : ℕ} (h : 0 < b) : rem a b = .ok (a % b) := if_neg (by omega)

lemma slice_ok {data : Bytes} {lo hi : ℕ} (h1 : lo ≤ hi) (h2 : hi ≤ data.length) :
    slice data lo hi = .ok (Flat.segment (fun i => data.getD i 0) lo hi) := by
  unfold slice
  rw [if_pos ⟨h1, h2⟩, Flat.segment.getD_list, show min lo data.length = lo by omega,
    show min hi data.length = hi by omega]
  simp

lemma growTo_ok {v : Bytes} {n : ℕ} (h : n < 2 ^ 63) :
    growTo v n = .ok (v ++ List.replicate (n - v.length) 0) := by
  unfold growTo
  split_ifs with hn
  · rw [reserve_ok h]; rfl
  · rw [show n - v.length = 0 by omega]; simp

/-! ### Selecting the chunks of a window -/

lemma lookup_eq_some {α β : Type} [BEq α] [LawfulBEq α] {l : List (α × β)} {k : α} {v : β}
    (hv : (k, v) ∈ l) (huniq : ∀ v', (k, v') ∈ l → v' = v) : l.lookup k = some v := by
  induction l with
  | nil => exact absurd hv List.not_mem_nil
  | cons p l ih =>
    obtain ⟨k', v'⟩ := p
    by_cases hk : k = k'
    · subst hk
      rw [List.lookup_cons_self, huniq v' List.mem_cons_self]
    · rw [List.lookup_cons, beq_false_of_ne hk]
      rcases List.mem_cons.mp hv with h | h
      · cases h; exact absurd rfl hk
      · exact ih h fun w hw => huniq w (List.mem_cons_of_mem _ hw)

/-- The selection for a window has every chunk of the window. -/
lemma lookup_selectChunks {first last c : ℕ} (hlast : last < 2 ^ 63) (h1 : first ≤ c)
    (h2 : c ≤ last) :
    (selectChunks d inode first last).lookup c = chunk? d inode c := by
  have hmem : ∀ v, (c, v) ∈ selectChunks d inode first last ↔ chunk? d inode c = some v := by
    intro v
    simp only [selectChunks, List.mem_map, Prod.mk.injEq, KeyTable.mem_select, chunk?,
      Option.map_eq_some_iff, KeyTable.find?_eq_some, decide_eq_true_eq, key_blobsRow]
    rw [U64.toI64_of_lt (by omega : first < 2 ^ 63), U64.toI64_of_lt hlast]
    constructor
    · rintro ⟨r, ⟨hr, rfl, hlo, hhi⟩, hc, rfl⟩
      obtain ⟨c', hc'⟩ := Int.eq_ofNat_of_zero_le (by omega : 0 ≤ r.chunkId)
      rw [hc'] at hc
      have : c' = c := by
        rw [← hc, ← U64.toI64_of_lt (by omega : c' < 2 ^ 63), U64.ofI64_toI64 (by omega)]
      exact ⟨r, ⟨hr, rfl, by rw [hc', this]⟩, rfl⟩
    · rintro ⟨r, ⟨hr, rfl, hc⟩, rfl⟩
      refine ⟨r, ⟨hr, rfl, by omega, by omega⟩, ?_, rfl⟩
      rw [hc, ← U64.toI64_of_lt (by omega : c < 2 ^ 63), U64.ofI64_toI64 (by omega)]
  cases hc : chunk? d inode c with
  | some v =>
    refine lookup_eq_some ((hmem v).mpr hc) fun v' hv' => ?_
    rw [(hmem v').mp hv'] at hc
    exact Option.some.inj hc
  | none =>
    rw [List.lookup_eq_none_iff]
    rintro ⟨k, v⟩ hkv
    by_contra hne
    have hck : c = k := by simpa using hne
    subst hck
    rw [(hmem v).mp hkv] at hc
    cases hc

/-! ### Reading -/

section Window

variable (d inode)
variable {a b : ℕ} (hk : 0 < chunkSize) (hab : a < b) (hb : b < 2 ^ 63)
include hk hab hb

/-- A round of the reading loop yields the bytes of the window that fall into its chunk. -/
lemma readChunk_ok {present : List (ℕ × Bytes)} {c : ℕ} (h1 : a / chunkSize ≤ c)
    (h2 : c ≤ (b - 1) / chunkSize) (hp : present.lookup c = chunk? d inode c) :
    readChunk present a b chunkSize c = .ok (Flat.segment (Chunks.value 0 (chunk d inode) chunkSize)
      (Chunks.edge a b chunkSize c) (Chunks.edge a b chunkSize (c + 1))) := by
  have hc : c * chunkSize ≤ b - 1 := (Nat.le_div_iff_mul_le hk).mp h2
  have hle := Chunks.edge_le_succ (a := a) (b := b) (k := chunkSize) (c := c)
  rw [Chunks.edge_eq_lo hk hab h1 h2, Chunks.edge_succ_eq_hi hk h1 h2] at hle ⊢
  rw [Chunks.segment_value 0 _ (Nat.min_le_right _ _), Flat.segment.getD_list]
  have hlohi : min (a - c * chunkSize) chunkSize ≤ min (b - c * chunkSize) chunkSize := by omega
  simp only [readChunk, U64.mul_of_lt (by omega : c * chunkSize < 2 ^ 64),
    U64.sub_of_le (by omega : c * chunkSize ≤ b) (by omega : b < 2 ^ 64),
    U64.sub_of_le hlohi (by omega), hp]
  cases hd : chunk? d inode c with
  | none => simp [chunk, hd]; rfl
  | some data =>
    have hsl : ∀ l h : ℕ, l ≤ h → slice data (min l data.length) (min h data.length)
        = .ok ((data.drop (min l data.length)).take (min h data.length - min l data.length)) :=
      fun l h hlh => if_pos ⟨by omega, by omega⟩
    simp only [hsl _ _ hlohi, chunk, hd, Option.getD_some]
    rw [U64.sub_of_le (by omega) (by omega)]
    rfl

/-- The reading loop, from chunk `c` on. -/
lemma readLoop_ok (present : List (ℕ × Bytes))
    (hp : ∀ c, a / chunkSize ≤ c → c ≤ (b - 1) / chunkSize → present.lookup c = chunk? d inode c)
    (m : ℕ) : ∀ (c : ℕ) (out : Bytes), a / chunkSize ≤ c → c + m ≤ (b - 1) / chunkSize + 1 →
      (List.range' c m).foldlM
          (fun out cid => return out ++ (← readChunk present a b chunkSize cid)) out
        = (.ok (out ++ Flat.segment (Chunks.value 0 (chunk d inode) chunkSize)
            (Chunks.edge a b chunkSize c) (Chunks.edge a b chunkSize (c + m))) : Res Bytes) := by
  induction m with
  | zero => intro c out _ _; simp; rfl
  | succ m ih =>
    intro c out h1 h2
    rw [List.range'_succ, List.foldlM_cons,
      readChunk_ok d inode hk hab hb h1 (by omega) (hp c h1 (by omega))]
    refine (ih (c + 1) _ (by omega) (by omega)).trans ?_
    rw [List.append_assoc, Flat.segment.append Chunks.edge_le_succ, show c + 1 + m = c + (m + 1) by omega]
    unfold Chunks.edge
    have : (c + 1) * chunkSize ≤ (c + 1 + m) * chunkSize := Nat.mul_le_mul_right _ (by omega)
    omega

end Window

/-- Reading yields what the chunks hold in the part of the window that lies within the file. -/
lemma readRange_ok {offset size fileSize : ℕ} (hk : 0 < chunkSize) (hf : fileSize < 2 ^ 63)
    (hos : offset + size < 2 ^ 64) (hoff : offset < fileSize) (hsize : size ≠ 0) :
    readRange d inode offset size fileSize chunkSize = .ok (Flat.segment
      (Chunks.value 0 (chunk d inode) chunkSize) offset (min (offset + size) fileSize)) := by
  have hempty : ¬ (offset ≥ fileSize ∨ size = 0) := by omega
  unfold readRange
  rw [if_neg hempty, U64.add_of_lt hos]
  generalize hb : min (offset + size) fileSize = b
  have hab : offset < b := by omega
  have hb63 : b < 2 ^ 63 := by omega
  have hlast : (b - 1) / chunkSize < 2 ^ 63 := (Nat.div_le_self _ _).trans_lt (by omega)
  have hfl : offset / chunkSize ≤ (b - 1) / chunkSize := Nat.div_le_div_right (by omega)
  simp only [U64.sub_of_le hab.le (by omega : b < 2 ^ 64),
    U64.sub_of_le (by omega : 1 ≤ b) (by omega : b < 2 ^ 64), div_ok hk,
    reserve_ok (by omega : b - offset < 2 ^ 63)]
  have hloop := readLoop_ok d inode hk hab hb63
    (selectChunks d inode (offset / chunkSize) ((b - 1) / chunkSize))
    (fun c h1 h2 => lookup_selectChunks hlast h1 h2)
    ((b - 1) / chunkSize + 1 - offset / chunkSize) (offset / chunkSize) [] le_rfl (by omega)
  refine hloop.trans ?_
  rw [show offset / chunkSize + ((b - 1) / chunkSize + 1 - offset / chunkSize)
      = (b - 1) / chunkSize + 1 by omega, Chunks.edge_first hab, Chunks.edge_last hk hab,
    List.nil_append]

lemma readRange_empty {offset size fileSize : ℕ} (h : offset ≥ fileSize ∨ size = 0) :
    readRange d inode offset size fileSize chunkSize = .ok [] := if_pos h

/-- Reading a represented file reads the byte array. -/
theorem readRange_of_represents {f : Bytes} (h : Represents d inode chunkSize f)
    (hk : 0 < chunkSize) (hf : f.length < 2 ^ 63) {offset size : ℕ} (hos : offset + size < 2 ^ 64) :
    readRange d inode offset size f.length chunkSize = .ok (Flat.read f offset size) := by
  by_cases hempty : offset ≥ f.length ∨ size = 0
  · rw [readRange_empty hempty]
    rcases hempty with hoff | rfl
    · simp [Flat.read, List.drop_eq_nil_of_le hoff]
    · simp [Flat.read]
  · rw [readRange_ok hk hf hos (by omega) (by omega), Flat.segment.read_eq 0,
      show min offset f.length = offset by omega, Flat.segment.congr fun x _ _ => h.bytes x]

/-! ### Writing -/

lemma chunk?_putBlob {d' : Db} {i j : ℤ} {data : Bytes}
    (h : d.putBlob inode i data = .ok d') :
    chunk? d' inode j = if i = j then some data else chunk? d inode j := by
  obtain ⟨-, rfl⟩ := Db.putBlob_eq_ok.mp h
  unfold chunk?
  simp only [KeyTable.find?_put, key_blobsRow, Prod.mk.injEq, true_and]
  split_ifs <;> rfl

section Window

variable (d inode)
variable {data : Bytes} {offset : ℕ} (hk : 0 < chunkSize) (hdata : data ≠ [])
  (hb : offset + data.length < 2 ^ 63)

/-- What the writing loop makes of chunk `c`. -/
def merged (d : Db) (inode chunkSize : ℕ) (data : Bytes) (offset c : ℕ) : Bytes :=
  Chunks.overwrite 0 (chunk d inode c)
    (Flat.segment (fun i => data.getD i 0)
      (Chunks.edge offset (offset + data.length) chunkSize c - offset)
      (Chunks.edge offset (offset + data.length) chunkSize (c + 1) - offset))
    (min (offset - c * chunkSize) chunkSize)

include hk hdata hb

/-- A round of the writing loop overwrites the part of its chunk that lies in the window. -/
lemma mergeChunk_ok {existing : List (ℕ × Bytes)} {c : ℕ} (h1 : offset / chunkSize ≤ c)
    (h2 : c ≤ (offset + data.length - 1) / chunkSize)
    (he : (existing.lookup c).getD [] = chunk d inode c) :
    mergeChunk existing data offset data.length chunkSize
        (Chunks.edge offset (offset + data.length) chunkSize c - offset) c
      = .ok (merged d inode chunkSize data offset c,
          Chunks.edge offset (offset + data.length) chunkSize (c + 1) - offset) := by
  have hlen : 0 < data.length := List.length_pos_of_ne_nil hdata
  have hab : offset < offset + data.length := by omega
  have hc : c * chunkSize ≤ offset + data.length - 1 := (Nat.le_div_iff_mul_le hk).mp h2
  have hle := Chunks.edge_le_succ (a := offset) (b := offset + data.length) (k := chunkSize) (c := c)
  have hlo := Chunks.edge_eq_lo hk hab h1 h2
  have hhi := Chunks.edge_succ_eq_hi hk h1 h2
  have hge := Chunks.le_edge (a := offset) (k := chunkSize) (c := c) hab.le
  have hup := Chunks.edge_le (a := offset) (b := offset + data.length) (k := chunkSize) (c := c + 1)
  unfold merged
  generalize Chunks.edge offset (offset + data.length) chunkSize c = lo at *
  generalize Chunks.edge offset (offset + data.length) chunkSize (c + 1) = hi at *
  have hsub : min (offset - c * chunkSize) chunkSize
      ≤ min (offset + data.length - c * chunkSize) chunkSize := by omega
  have hsum : lo - offset + (min (offset + data.length - c * chunkSize) chunkSize
      - min (offset - c * chunkSize) chunkSize) = hi - offset := by omega
  have hadd : U64.add offset data.length = offset + data.length :=
    U64.add_of_lt (by omega)
  simp only [mergeChunk, U64.mul_of_lt (by omega : c * chunkSize < 2 ^ 64), hadd,
    U64.sub_of_le (by omega : c * chunkSize ≤ offset + data.length)
      (by omega : offset + data.length < 2 ^ 64),
    U64.sub_of_le hsub (by omega), he,
    growTo_ok (by omega : min (offset - c * chunkSize) chunkSize < 2 ^ 63)]
  rw [U64.add_of_lt (by omega : lo - offset + (min (offset + data.length - c * chunkSize) chunkSize
      - min (offset - c * chunkSize) chunkSize) < 2 ^ 64), hsum]
  simp only [bind, Except.bind, slice_ok (by omega : lo - offset ≤ hi - offset)
    (by omega : hi - offset ≤ data.length), pure, Except.pure, Except.ok.injEq, Prod.mk.injEq,
    and_true, List.length_append, List.length_replicate]
  refine Chunks.overwrite_grown _ _ _ _ ?_
  rw [Flat.segment.length, ← hsum]
  omega

/-- The writing loop, from chunk `c` on: it merges the chunks it passes and leaves the rest. -/
lemma writeLoop_ok (existing : List (ℕ × Bytes))
    (he : ∀ c, offset / chunkSize ≤ c → c ≤ (offset + data.length - 1) / chunkSize →
      (existing.lookup c).getD [] = chunk d inode c) (m : ℕ) :
    ∀ (c : ℕ) (d₁ : Db), offset / chunkSize ≤ c →
      c + m ≤ (offset + data.length - 1) / chunkSize + 1 → d₁.hasNode inode = true →
      ∃ d', writeLoop inode existing data offset data.length chunkSize (List.range' c m)
          (Chunks.edge offset (offset + data.length) chunkSize c - offset) d₁ = .ok (⟨⟩, d') ∧
        ∀ i, chunk? d' inode i = if (c : ℤ) ≤ i ∧ i < c + m
          then some (merged d inode chunkSize data offset i.toNat) else chunk? d₁ inode i := by
  induction m with
  | zero =>
    intro c d₁ _ _ _
    refine ⟨d₁, by simp [writeLoop], fun i => ?_⟩
    rw [if_neg (by omega)]
  | succ m ih =>
    intro c d₁ h1 h2 hnode
    have hlast : (offset + data.length - 1) / chunkSize < 2 ^ 63 :=
      (Nat.div_le_self _ _).trans_lt (by omega)
    have hmerge := mergeChunk_ok d inode hk hdata hb h1 (by omega) (he c h1 (by omega))
    have hput : d₁.putBlob inode (U64.toI64 c) (merged d inode chunkSize data offset c) = .ok _ :=
      Db.putBlob_eq_ok.mpr ⟨hnode, rfl⟩
    obtain ⟨d', hrun, hchunks⟩ := ih (c + 1) _ (by omega) (by omega)
      (show Db.hasNode { d₁ with blobs := d₁.blobs.put _ } inode = true from hnode)
    refine ⟨d', ?_, fun i => ?_⟩
    · rw [List.range'_succ, writeLoop]
      exact Body.ask_bind_eq_ok.mpr ⟨_, hmerge, stmt_bind_eq_ok.mpr ⟨_, hput, hrun⟩⟩
    · rw [hchunks, chunk?_putBlob hput, U64.toI64_of_lt (by omega : c < 2 ^ 63)]
      by_cases hi : (c : ℤ) = i
      · subst hi
        rw [if_neg (by omega), if_pos rfl, if_pos (by omega)]
        simp
      · rw [if_neg hi]
        by_cases hin : ((c + 1 : ℕ) : ℤ) ≤ i ∧ i < (c + 1 : ℕ) + m
        · rw [if_pos hin, if_pos (by omega)]
        · rw [if_neg hin, if_neg (by omega)]

lemma length_merged {c : ℕ} (h1 : offset / chunkSize ≤ c)
    (h2 : c ≤ (offset + data.length - 1) / chunkSize) :
    (merged d inode chunkSize data offset c).length
      = max (chunk d inode c).length (min (offset + data.length - c * chunkSize) chunkSize) := by
  have hlen : 0 < data.length := List.length_pos_of_ne_nil hdata
  have hc : c * chunkSize ≤ offset + data.length - 1 := (Nat.le_div_iff_mul_le hk).mp h2
  rw [merged, Chunks.length_overwrite, Flat.segment.length,
    Chunks.edge_eq_lo hk (by omega) h1 h2, Chunks.edge_succ_eq_hi hk h1 h2]
  have : c * chunkSize + min (offset - c * chunkSize) chunkSize ≥ offset := by
    rw [← Chunks.edge_eq_lo hk (by omega) h1 h2]
    exact Chunks.le_edge (by omega)
  omega

lemma getD_merged {c j : ℕ} (h1 : offset / chunkSize ≤ c)
    (h2 : c ≤ (offset + data.length - 1) / chunkSize) (hj : j < chunkSize) :
    (merged d inode chunkSize data offset c).getD j 0
      = if offset ≤ c * chunkSize + j ∧ c * chunkSize + j < offset + data.length
        then data.getD (c * chunkSize + j - offset) 0 else (chunk d inode c).getD j 0 := by
  have hlen : 0 < data.length := List.length_pos_of_ne_nil hdata
  have hc : c * chunkSize ≤ offset + data.length - 1 := (Nat.le_div_iff_mul_le hk).mp h2
  have hlo := Chunks.edge_eq_lo hk (by omega : offset < offset + data.length) h1 h2
  have hhi := Chunks.edge_succ_eq_hi hk h1 h2
  have hge := Chunks.le_edge (a := offset) (b := offset + data.length) (k := chunkSize) (c := c)
    (by omega)
  have hlt := Chunks.edge_lt_succ hk (by omega : offset < offset + data.length) h1 h2
  unfold merged
  generalize Chunks.edge offset (offset + data.length) chunkSize c = lo at *
  generalize Chunks.edge offset (offset + data.length) chunkSize (c + 1) = hi at *
  have hne : Flat.segment (fun i => data.getD i 0) (lo - offset) (hi - offset) ≠ [] := by
    rw [← List.length_pos_iff, Flat.segment.length]
    omega
  rw [Chunks.getD_overwrite 0 _ hne, Flat.segment.length, List.getD_eq_getElem?_getD,
    Flat.segment.getElem?_eq]
  by_cases hin : offset ≤ c * chunkSize + j ∧ c * chunkSize + j < offset + data.length
  · rw [if_pos hin, if_pos (by omega), if_pos (by omega), Option.getD_some]
    congr 1
    omega
  · rw [if_neg hin, if_neg (by omega)]

/-- The chunks of `d'` in the window have been merged with `data`, and the others are those of `d`. -/
def Merged (d d' : Db) (inode chunkSize : ℕ) (data : Bytes) (offset : ℕ) : Prop :=
  ∀ i : ℤ, chunk? d' inode i =
    if ((offset / chunkSize : ℕ) : ℤ) ≤ i ∧ i ≤ ((offset + data.length - 1) / chunkSize : ℕ)
    then some (merged d inode chunkSize data offset i.toNat) else chunk? d inode i

/-- Writing merges the chunks of the window. -/
lemma writeRange_ok (hnode : d.hasNode inode = true) (fileSize : ℕ) :
    ∃ d', writeRange inode data offset fileSize chunkSize d
        = .ok (max fileSize (offset + data.length), d') ∧
      Merged d d' inode chunkSize data offset := by
  have hlen : 0 < data.length := List.length_pos_of_ne_nil hdata
  have hadd : U64.add offset data.length = offset + data.length := U64.add_of_lt (by omega)
  have hsub : U64.sub (offset + data.length) 1 = offset + data.length - 1 :=
    U64.sub_of_le (by omega) (by omega)
  have hfl : offset / chunkSize ≤ (offset + data.length - 1) / chunkSize :=
    Nat.div_le_div_right (by omega)
  have hlast : (offset + data.length - 1) / chunkSize < 2 ^ 63 :=
    (Nat.div_le_self _ _).trans_lt (by omega)
  obtain ⟨d', hrun, hchunks⟩ := writeLoop_ok d inode hk hdata hb
    (selectChunks d inode (offset / chunkSize) ((offset + data.length - 1) / chunkSize))
    (fun c h1 h2 => by rw [lookup_selectChunks hlast h1 h2]; rfl)
    ((offset + data.length - 1) / chunkSize + 1 - offset / chunkSize) (offset / chunkSize) d le_rfl
    (by omega) hnode
  rw [Chunks.edge_first (by omega), Nat.sub_self] at hrun
  refine ⟨d', ?_, fun i => ?_⟩
  · rw [writeRange, if_neg hdata]
    refine Body.ask_bind_eq_ok.mpr ⟨_, div_ok hk, Body.ask_bind_eq_ok.mpr ⟨_, ?_,
      Body.ask_bind_eq_ok.mpr ⟨_, rfl, Body.bind_eq_ok.mpr ⟨⟨⟩, d', hrun, ?_⟩⟩⟩⟩
    · rw [hadd, hsub, div_ok hk]
    · rw [hadd, Body.pure_eq_ok]
      exact ⟨rfl, rfl⟩
  · rw [hchunks]
    by_cases hi : ((offset / chunkSize : ℕ) : ℤ) ≤ i ∧
        i ≤ ((offset + data.length - 1) / chunkSize : ℕ)
    · rw [if_pos hi, if_pos (by omega)]
    · rw [if_neg hi, if_neg (by omega)]

section Merged
variable {d' : Db} {f : Bytes} (hmerged : Merged d d' inode chunkSize data offset)
  (h : Represents d inode chunkSize f)
include hmerged h

/-- The rows end within the longer file. -/
lemma Merged.fits : Fits d' inode chunkSize (max f.length (offset + data.length)) := by
  have hlen : 0 < data.length := List.length_pos_of_ne_nil hdata
  intro i bytes hi
  rw [hmerged] at hi
  split_ifs at hi with hrange
  · obtain ⟨c, rfl⟩ := Int.eq_ofNat_of_zero_le ((Int.natCast_nonneg _).trans hrange.1)
    have h1 : offset / chunkSize ≤ c := Int.ofNat_le.mp hrange.1
    have h2 : c ≤ (offset + data.length - 1) / chunkSize := Int.ofNat_le.mp hrange.2
    cases hi
    have hm := length_merged d inode hk hdata hb h1 h2
    have hc : c * chunkSize ≤ offset + data.length - 1 := (Nat.le_div_iff_mul_le hk).mp h2
    have hold : (chunk d inode c).length ≤ chunkSize ∧
        ((chunk d inode c).length = 0 ∨ c * chunkSize + (chunk d inode c).length ≤ f.length) := by
      unfold chunk
      cases hd : chunk? d inode c with
      | none => simp
      | some old =>
        obtain ⟨c', hc', -, h3, h4⟩ := h.fits c old hd
        obtain rfl : c = c' := by exact_mod_cast hc'
        exact ⟨h3, Or.inr h4⟩
    simp only [Int.toNat_natCast] at hm ⊢
    refine ⟨c, rfl, ?_, by omega, by omega⟩
    rw [← List.length_pos_iff]
    omega
  · obtain ⟨c, hc, hne, h3, h4⟩ := h.fits i bytes hi
    exact ⟨c, hc, hne, h3, h4.trans (le_max_left _ _)⟩

/-- In the window the chunks read as `data`, and outside it as before. -/
lemma Merged.bytes (x : ℕ) : Chunks.value 0 (chunk d' inode) chunkSize x
    = (Flat.write 0 f data offset).getD x 0 := by
  have hlen : 0 < data.length := List.length_pos_of_ne_nil hdata
  have hchunk : ∀ c : ℕ, chunk d' inode c
      = if offset / chunkSize ≤ c ∧ c ≤ (offset + data.length - 1) / chunkSize
        then merged d inode chunkSize data offset c else chunk d inode c := by
    intro c
    unfold chunk
    rw [hmerged]
    by_cases hc : offset / chunkSize ≤ c ∧ c ≤ (offset + data.length - 1) / chunkSize
    · rw [if_pos hc, if_pos (by omega)]
      rfl
    · rw [if_neg hc, if_neg (by omega)]
  have hx : x / chunkSize * chunkSize + x % chunkSize = x := Nat.div_add_mod' x chunkSize
  have hmod := Nat.mod_lt x hk
  rw [Flat.getD_write 0 f hdata, ← h.bytes x]
  unfold Chunks.value
  rw [hchunk]
  split_ifs with hc hin hin
  · rw [getD_merged d inode hk hdata hb hc.1 hc.2 hmod, hx, if_pos hin]
  · rw [getD_merged d inode hk hdata hb hc.1 hc.2 hmod, hx, if_neg hin]
  · exact absurd ⟨Nat.div_le_div_right hin.1, Nat.div_le_div_right (by omega)⟩ hc
  · rfl

end Merged

end Window

/-- Writing to a represented file writes to the byte array. -/
theorem writeRange_of_represents {f data : Bytes} {offset : ℕ}
    (h : Represents d inode chunkSize f) (hk : 0 < chunkSize) (hnode : d.hasNode inode = true)
    (hb : offset + data.length < 2 ^ 63) :
    ∃ d', writeRange inode data offset f.length chunkSize d
        = .ok ((Flat.write 0 f data offset).length, d') ∧
      Represents d' inode chunkSize (Flat.write 0 f data offset) := by
  by_cases hdata : data = []
  · exact ⟨d, by simp [writeRange, hdata, Flat.write], by simpa [hdata, Flat.write] using h⟩
  obtain ⟨d', hrun, hmerged⟩ := writeRange_ok d inode hk hdata hb hnode f.length
  have hfits := hmerged.fits d inode hk hdata hb h
  rw [← Flat.length_write 0 f hdata] at hrun hfits
  exact ⟨d', hrun, hfits, hmerged.bytes d inode hk hdata hb h⟩

/-! ### Truncating -/

lemma chunk?_deleteBlobs (p : BlobsRow → Bool) (i : ℤ) {q : ℤ → Bool}
    (hp : ∀ r : BlobsRow, r.inode = inode → p r = q r.chunkId) :
    chunk? (d.deleteBlobs p) inode i = if q i then none else chunk? d inode i := by
  unfold chunk? Db.deleteBlobs
  simp only [KeyTable.find?_deleteWhere]
  cases hr : d.blobs.find? (inode, i) with
  | none => split_ifs <;> rfl
  | some r =>
    have hkey : r.inode = inode ∧ r.chunkId = i := by
      simpa using (KeyTable.find?_eq_some.mp hr).2
    simp only [Option.filter_some, hp r hkey.1, hkey.2]
    cases q i <;> rfl

lemma chunk?_updateBlob {i j : ℤ} {data : Bytes} :
    chunk? (d.updateBlob inode i data) inode j
      = if j = i then (chunk? d inode j).map fun _ => data else chunk? d inode j := by
  unfold chunk? Db.updateBlob
  simp only [KeyTable.find?_updateAt, Prod.mk.injEq, true_and]
  split_ifs
  · rw [Option.map_map, Option.map_map]; rfl
  · rfl

/-- The database after a shrink to `newSize`. -/
def shrunk (d : Db) (inode chunkSize newSize : ℕ) : Db :=
  let d₁ := d.deleteBlobs fun r => r.inode = inode ∧ r.chunkId > (newSize / chunkSize : ℕ)
  if newSize % chunkSize = 0 then
    d₁.deleteBlobs fun r => r.inode = inode ∧ r.chunkId = (newSize / chunkSize : ℕ)
  else
    d₁.updateBlob inode (newSize / chunkSize : ℕ)
      ((chunk d₁ inode (newSize / chunkSize)).take (newSize % chunkSize))

lemma truncateTo_ok {newSize oldSize : ℕ} (hk : 0 < chunkSize) (hlt : newSize < oldSize)
    (h63 : newSize < 2 ^ 63) :
    truncateTo inode newSize oldSize chunkSize d = .ok (⟨⟩, shrunk d inode chunkSize newSize) := by
  have hb63 : newSize / chunkSize < 2 ^ 63 := (Nat.div_le_self _ _).trans_lt h63
  rw [truncateTo, if_neg (by omega)]
  refine Body.ask_bind_eq_ok.mpr ⟨_, div_ok hk,
    Body.ask_bind_eq_ok.mpr ⟨_, rem_ok hk, update_bind_eq_ok.mpr ?_⟩⟩
  rw [U64.toI64_of_lt hb63]
  unfold shrunk
  dsimp only
  generalize d.deleteBlobs _ = d₁
  split_ifs with hzero
  · exact update_eq_ok.mpr rfl
  refine Body.ask_bind_eq_ok.mpr ⟨_, rfl, ?_⟩
  unfold chunk chunk?
  cases hr : d₁.blobs.find? (inode, ((newSize / chunkSize : ℕ) : ℤ)) with
  | none =>
    refine Body.pure_eq_ok.mpr ⟨rfl, ?_⟩
    rw [Db.updateBlob, KeyTable.updateAt_eq_self _ _ _ _ hr]
  | some r => exact update_eq_ok.mpr rfl

/-- Shrinking drops the chunks past the boundary and cuts the one on it. -/
lemma chunk?_shrunk (newSize : ℕ) (i : ℤ) :
    chunk? (shrunk d inode chunkSize newSize) inode i
      = if i < (newSize / chunkSize : ℕ) then chunk? d inode i
        else if i = (newSize / chunkSize : ℕ) ∧ newSize % chunkSize ≠ 0
          then (chunk? d inode i).map (List.take (newSize % chunkSize))
          else none := by
  unfold shrunk
  dsimp only
  generalize newSize / chunkSize = boundary
  generalize newSize % chunkSize = boundaryOff
  have hgt : ∀ i, chunk? (d.deleteBlobs fun r => r.inode = inode ∧ r.chunkId > (boundary : ℤ))
      inode i = if i > (boundary : ℤ) then none else chunk? d inode i := fun i => by
    rw [chunk?_deleteBlobs (q := fun i => decide (i > (boundary : ℤ))) _ i fun r hr => by simp [hr]]
    simp only [decide_eq_true_eq]
  split_ifs with hzero h1 h2 h1 h2
  · rw [chunk?_deleteBlobs (q := fun i => decide (i = (boundary : ℤ))) _ i fun r hr => by simp [hr],
      hgt, if_neg (by simp; omega), if_neg (by omega)]
  · exact absurd hzero h2.2
  · rw [chunk?_deleteBlobs (q := fun i => decide (i = (boundary : ℤ))) _ i fun r hr => by simp [hr],
      hgt]
    simp only [decide_eq_true_eq]
    split_ifs <;> first | rfl | omega
  · rw [chunk?_updateBlob, if_neg (by omega), hgt, if_neg (by omega)]
  · obtain ⟨rfl, -⟩ := h2
    rw [chunk?_updateBlob, if_pos rfl, chunk, hgt, if_neg (by omega)]
    cases chunk? d inode boundary <;> rfl
  · have hne : i ≠ boundary := fun h => h2 ⟨h, hzero⟩
    rw [chunk?_updateBlob, if_neg hne, hgt, if_pos (by omega)]

/-- Truncating a represented file resizes the byte array. -/
theorem truncateTo_of_represents {f : Bytes} {newSize : ℕ} (h : Represents d inode chunkSize f)
    (hk : 0 < chunkSize) (h63 : newSize < 2 ^ 63) :
    ∃ d', truncateTo inode newSize f.length chunkSize d = .ok (⟨⟩, d') ∧
      Represents d' inode chunkSize (Flat.resize 0 f newSize) := by
  by_cases hge : newSize ≥ f.length
  · -- growing leaves the rows alone: what they lack is zero already
    refine ⟨d, by rw [truncateTo, if_pos hge]; rfl, ?_, fun x => ?_⟩
    · intro i data hi
      obtain ⟨c, hc, hne, h3, h4⟩ := h.fits i data hi
      exact ⟨c, hc, hne, h3, by rw [Flat.length_resize]; omega⟩
    · rw [h.bytes, Flat.getD_resize]
      split_ifs with hx
      · rfl
      · rw [List.getD_eq_getElem?_getD, List.getElem?_eq_none (by omega)]; rfl
  · refine ⟨_, truncateTo_ok hk (by omega) h63, ?_, fun x => ?_⟩
    · intro i data hi
      rw [Flat.length_resize]
      have hdiv : newSize / chunkSize * chunkSize + newSize % chunkSize = newSize :=
        Nat.div_add_mod' _ _
      rw [chunk?_shrunk] at hi
      split_ifs at hi with h1 h2
      · obtain ⟨c, rfl, hne, h3, -⟩ := h.fits i data hi
        have hle : (c + 1) * chunkSize ≤ newSize / chunkSize * chunkSize :=
          Nat.mul_le_mul_right _ (by omega)
        rw [Nat.add_mul, Nat.one_mul] at hle
        exact ⟨c, rfl, hne, h3, by omega⟩
      · obtain ⟨old, hold, rfl⟩ := Option.map_eq_some_iff.mp hi
        obtain ⟨c, rfl, hne, h3, -⟩ := h.fits i old hold
        obtain rfl : c = newSize / chunkSize := by omega
        have hpos := List.length_pos_iff.mpr hne
        refine ⟨_, rfl, ?_, by rw [List.length_take]; omega, by rw [List.length_take]; omega⟩
        rw [← List.length_pos_iff, List.length_take]
        omega
    · have hx : x / chunkSize * chunkSize + x % chunkSize = x := Nat.div_add_mod' _ _
      have hdiv : newSize / chunkSize * chunkSize + newSize % chunkSize = newSize :=
        Nat.div_add_mod' _ _
      have hmod := Nat.mod_lt x hk
      rw [Flat.getD_resize, ← h.bytes x]
      unfold Chunks.value chunk
      rw [chunk?_shrunk]
      rcases Nat.lt_trichotomy (x / chunkSize) (newSize / chunkSize) with hlt | heq | hgt
      · have hle : (x / chunkSize + 1) * chunkSize ≤ newSize / chunkSize * chunkSize :=
          Nat.mul_le_mul_right _ hlt
        rw [Nat.add_mul, Nat.one_mul] at hle
        rw [if_pos (by omega), if_pos (by omega)]
      · rw [if_neg (by omega)]
        by_cases hoff : newSize % chunkSize = 0
        · rw [if_neg (by omega), if_neg (by rw [heq] at hx; omega)]
          rfl
        · rw [if_pos ⟨by omega, hoff⟩]
          have hiff : x % chunkSize < newSize % chunkSize ↔ x < newSize := by
            rw [heq] at hx; omega
          cases hc : chunk? d inode (x / chunkSize : ℕ) with
          | none => simp
          | some old =>
            simp only [Option.map_some, Option.getD_some, Chunks.getD_take, hiff]
      · have hle : (newSize / chunkSize + 1) * chunkSize ≤ x / chunkSize * chunkSize :=
          Nat.mul_le_mul_right _ hgt
        have := Nat.mod_lt newSize hk
        rw [Nat.add_mul, Nat.one_mul] at hle
        rw [if_neg (by omega), if_neg (by omega), if_neg (by omega)]
        rfl

end Blobs

end SqliteFs
