import SqliteFs.Blobs.Refinement
import SqliteFs.Blobs.Frame

/-!
# Runs of calls on one file

A run of writes and truncations on a file, each given the size that the one before it left, stays
in step with the same run on a byte array.
-/

namespace SqliteFs

open Txn

namespace Blobs

variable {d : Db} {inode chunkSize : ℕ}

def I64_MAX : ℕ := 2 ^ 63 - 1

/-- The calls that change a file's content. -/
inductive BlobCall
  | writeRange (data : Bytes) (offset : ℕ)
  | truncateTo (newSize : ℕ)

namespace BlobCall

/-- Make the call on a file of `size` bytes; the result is the file's size after it. -/
def run (inode chunkSize : ℕ) : BlobCall → ℕ → Sql ℕ
  | .writeRange data offset, size => Blobs.writeRange inode data offset size chunkSize
  | .truncateTo newSize, size => do
    Blobs.truncateTo inode newSize size chunkSize
    return newSize

/-- Make the calls one after the other. -/
def runAll (inode chunkSize : ℕ) : List BlobCall → ℕ → Sql ℕ
  | [], size => pure size
  | call :: calls, size => do
    let size ← call.run inode chunkSize size
    runAll inode chunkSize calls size

/-- What the call does to a byte array. -/
def apply (f : Bytes) : BlobCall → Bytes
  | .writeRange data offset => Flat.write 0 f data offset
  | .truncateTo newSize => Flat.resize 0 f newSize

/-- The call ends within the range of an `i64`. -/
def InRange : BlobCall → Prop
  | .writeRange data offset => offset + data.length ≤ I64_MAX
  | .truncateTo newSize => newSize ≤ I64_MAX

instance : DecidablePred InRange
  | .writeRange data offset => inferInstanceAs (Decidable (offset + data.length ≤ I64_MAX))
  | .truncateTo newSize => inferInstanceAs (Decidable (newSize ≤ I64_MAX))

variable {f : Bytes} {call : BlobCall}

lemma length_apply (h : call.InRange) (hf : f.length ≤ I64_MAX) :
    (call.apply f).length ≤ I64_MAX := by
  cases call with
  | writeRange data offset =>
    change (Flat.write 0 f data offset).length ≤ I64_MAX
    by_cases hdata : data = []
    · simpa [Flat.write, hdata] using hf
    · rw [Flat.length_write 0 f hdata]
      exact max_le hf h
  | truncateTo newSize =>
    change (Flat.resize 0 f newSize).length ≤ I64_MAX
    rw [Flat.length_resize]
    exact h

/-- One call keeps the rows and the byte array in step. -/
lemma run_of_represents (h : Represents d inode chunkSize f) (hk : 0 < chunkSize)
    (hnode : d.hasNode inode = true) (hcall : call.InRange) :
    ∃ d', call.run inode chunkSize f.length d = .ok ((call.apply f).length, d') ∧
      Represents d' inode chunkSize (call.apply f) ∧ d'.hasNode inode = true := by
  have hmax : I64_MAX < 2 ^ 63 := by decide
  cases call with
  | writeRange data offset =>
    obtain ⟨d', hrun, hrep⟩ := writeRange_of_represents h hk hnode
      (lt_of_le_of_lt hcall hmax : offset + data.length < 2 ^ 63)
    exact ⟨d', hrun, hrep, by rw [(writeRange_changes hrun).hasNode, hnode]⟩
  | truncateTo newSize =>
    obtain ⟨d', hrun, hrep⟩ := truncateTo_of_represents h hk
      (lt_of_le_of_lt hcall hmax : newSize < 2 ^ 63)
    refine ⟨d', Body.bind_eq_ok.mpr ⟨⟨⟩, d', hrun, ?_⟩, hrep,
      by rw [(truncateTo_changes hrun).hasNode, hnode]⟩
    exact Body.pure_eq_ok.mpr ⟨Flat.length_resize 0 f newSize, rfl⟩

/-- So does a run. -/
lemma runAll_of_represents (calls : List BlobCall) :
    ∀ {d : Db} {f : Bytes}, Represents d inode chunkSize f → 0 < chunkSize →
      d.hasNode inode = true → f.length ≤ I64_MAX → (∀ call ∈ calls, call.InRange) →
      ∃ d', runAll inode chunkSize calls f.length d = .ok ((calls.foldl apply f).length, d') ∧
        Represents d' inode chunkSize (calls.foldl apply f) ∧
        (calls.foldl apply f).length ≤ I64_MAX := by
  induction calls with
  | nil =>
    intro d f h _ _ hf _
    exact ⟨d, rfl, h, hf⟩
  | cons call calls ih =>
    intro d f h hk hnode hf hcalls
    have hcall := hcalls call List.mem_cons_self
    obtain ⟨d₁, hrun, hrep, hnode₁⟩ := run_of_represents h hk hnode hcall
    obtain ⟨d', hrest, hrep', hlen⟩ := ih hrep hk hnode₁ (length_apply hcall hf)
      fun c hc => hcalls c (List.mem_cons_of_mem _ hc)
    exact ⟨d', Body.bind_eq_ok.mpr ⟨_, d₁, hrun, hrest⟩, hrep', hlen⟩

end BlobCall

lemma represents_nil (chunkSize : ℕ) (h : ∀ r ∈ d.blobs, r.inode ≠ inode) :
    Represents d inode chunkSize [] := by
  have hnone : ∀ i, chunk? d inode i = none := fun i =>
    Option.map_eq_none_iff.mpr (KeyTable.find?_eq_none.mpr fun r hr hkey =>
      h r hr (congrArg Prod.fst hkey))
  refine ⟨fun i data hi => absurd ((hnone i).symm.trans hi) (by simp), fun x => ?_⟩
  rw [Chunks.value, chunk, hnone]
  rfl

/-- Whatever calls have been made on a file that began without chunks, reading it yields the
bytes of the array that the same calls make. -/
theorem readRange_runAll (hk : 1 ≤ chunkSize) (hnode : d.hasNode inode = true)
    (hempty : ∀ r ∈ d.blobs, r.inode ≠ inode) (calls : List BlobCall)
    (hcalls : ∀ call ∈ calls, call.InRange) :
    ∃ size d', BlobCall.runAll inode chunkSize calls 0 d = .ok (size, d') ∧
      size = (calls.foldl BlobCall.apply []).length ∧
      ∀ offset n, offset + n < 2 ^ 64 → readRange d' inode offset n size chunkSize
        = .ok (Flat.read (calls.foldl BlobCall.apply []) offset n) := by
  obtain ⟨d', hrun, hrep, hlen⟩ := BlobCall.runAll_of_represents calls
    (represents_nil chunkSize hempty) hk hnode (Nat.zero_le _) hcalls
  refine ⟨_, d', hrun, rfl, fun offset n hn => readRange_of_represents hrep hk ?_ hn⟩
  exact lt_of_le_of_lt hlen (by decide)

/-- A database with one empty file. -/
def oneFile : Db where
  chunkSize := 4
  nodes := (KeyTable.empty.insert? ⟨2, .file, 0o644, 0, 0, 0, 0, 0, 0, 1⟩).getD .empty
  nodesSeq := 2
  entries := .empty
  blobs := .empty
  xattrs := .empty
  symlinks := .empty

theorem readRange_runAll_oneFile :
    ∃ size d', BlobCall.runAll 2 4
        [.writeRange [1, 2, 3] 2, .truncateTo 3, .writeRange [4] 5] 0 oneFile = .ok (size, d') ∧
      size = 6 ∧
      ∀ offset n, offset + n < 2 ^ 64 →
        readRange d' 2 offset n size 4 = .ok (Flat.read [0, 0, 1, 0, 0, 4] offset n) :=
  readRange_runAll (d := oneFile) (by decide) (by decide) (by decide)
    [.writeRange [1, 2, 3] 2, .truncateTo 3, .writeRange [4] 5] (by decide)

end Blobs

end SqliteFs
