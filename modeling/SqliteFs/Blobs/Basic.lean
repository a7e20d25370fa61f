import SqliteFs.Tables

/-!
# File contents in chunks

A file is stored as rows of at most `chunkSize` bytes. Chunks may be short or missing; what they
lack reads as zero.

The arithmetic is that of the release build, where sums and differences wrap around; a build
with overflow checks stops where they would. Dividing by zero, slicing out of bounds and asking
for a capacity above `isize::MAX` panic in every build.
-/

namespace SqliteFs

open Txn

namespace Blobs

def div (a b : ℕ) : Res ℕ := if b = 0 then .error .panic else .ok (a / b)

def rem (a b : ℕ) : Res ℕ := if b = 0 then .error .panic else .ok (a % b)

/-- `&data[lo..hi]`. -/
def slice (data : Bytes) (lo hi : ℕ) : Res Bytes :=
  if lo ≤ hi ∧ hi ≤ data.length then .ok ((data.drop lo).take (hi - lo)) else .error .panic

/-- A request for capacity: `Vec::with_capacity`, `Vec::resize`. -/
def reserve (n : ℕ) : Res Unit := if n < 2 ^ 63 then .ok () else .error .panic

/-- `first..=last`. -/
def inclusive (first last : ℕ) : List ℕ := List.range' first (last + 1 - first)

/-- The rows with `chunk_id BETWEEN first AND last`, keyed by chunk. -/
def selectChunks (d : Db) (inode first last : ℕ) : List (ℕ × Bytes) :=
  (d.blobs.select fun r => r.inode = inode ∧ U64.toI64 first ≤ r.chunkId
      ∧ r.chunkId ≤ U64.toI64 last).map
    fun r => (U64.ofI64 r.chunkId, r.data)

/-- One round of the loop of `readRange`: what chunk `cid` contributes. -/
def readChunk (present : List (ℕ × Bytes)) (offset end_ chunkSize cid : ℕ) : Res Bytes := do
  let chunkStart := U64.mul cid chunkSize
  let lo := min (offset - chunkStart) chunkSize
  let hi := min (U64.sub end_ chunkStart) chunkSize
  let want := U64.sub hi lo
  match present.lookup cid with
  | some data =>
    let sliceLo := min lo data.length
    let sliceHi := min hi data.length
    let piece ← slice data sliceLo sliceHi
    return piece ++ List.replicate (U64.sub want (sliceHi - sliceLo)) 0
  | none => return List.replicate want 0

def readRange (d : Db) (inode offset size fileSize chunkSize : ℕ) : Res Bytes :=
  if offset ≥ fileSize ∨ size = 0 then .ok [] else do
  let end_ := min (U64.add offset size) fileSize
  let actual := U64.sub end_ offset
  let first ← div offset chunkSize
  let last ← div (U64.sub end_ 1) chunkSize
  let present := selectChunks d inode first last
  reserve actual
  (inclusive first last).foldlM
    (fun out cid => return out ++ (← readChunk present offset end_ chunkSize cid)) []

/-- `if v.len() < n { v.resize(n, 0); }`. -/
def growTo (v : Bytes) (n : ℕ) : Res Bytes :=
  if v.length < n then do
    reserve n
    return v ++ List.replicate (n - v.length) 0
  else .ok v

/-- One round of the loop of `writeRange`: the new data of chunk `cid`, and where the rest of
`data` begins. The chunk's old bytes before and after the written range stay. -/
def mergeChunk (existing : List (ℕ × Bytes)) (data : Bytes) (offset n chunkSize cursor cid : ℕ) :
    Res (Bytes × ℕ) := do
  let chunkStart := U64.mul cid chunkSize
  let lo := min (offset - chunkStart) chunkSize
  let hi := min (U64.sub (U64.add offset n) chunkStart) chunkSize
  let sliceLen := U64.sub hi lo
  let old ← growTo ((existing.lookup cid).getD []) lo
  let tailStart := min hi old.length
  let tail := old.drop tailStart
  let old := old.take lo
  let piece ← slice data cursor (U64.add cursor sliceLen)
  return (old ++ piece ++ tail, U64.add cursor sliceLen)

/-- The loop of `writeRange`. Every chunk is visited once, so taking it out of `existing` is the
same as looking it up. -/
def writeLoop (inode : ℕ) (existing : List (ℕ × Bytes)) (data : Bytes)
    (offset n chunkSize : ℕ) : List ℕ → ℕ → Sql PUnit
  | [], _ => pure ⟨⟩
  | cid :: cids, cursor => do
    let merged ← Body.ask fun _ => mergeChunk existing data offset n chunkSize cursor cid
    stmt fun d => d.putBlob inode (U64.toI64 cid) merged.1
    writeLoop inode existing data offset n chunkSize cids merged.2

def writeRange (inode : ℕ) (data : Bytes) (offset fileSize chunkSize : ℕ) : Sql ℕ :=
  if data = [] then pure fileSize else do
  let n := data.length
  let first ← Body.ask fun _ => div offset chunkSize
  let last ← Body.ask fun _ => div (U64.sub (U64.add offset n) 1) chunkSize
  let existing ← Body.ask fun d => .ok (selectChunks d inode first last)
  writeLoop inode existing data offset n chunkSize (inclusive first last) 0
  return max fileSize (U64.add offset n)

def truncateTo (inode newSize oldSize chunkSize : ℕ) : Sql PUnit :=
  if newSize ≥ oldSize then pure ⟨⟩ else do
  let boundary ← Body.ask fun _ => div newSize chunkSize
  let boundaryOff ← Body.ask fun _ => rem newSize chunkSize
  update fun d => d.deleteBlobs fun r => r.inode = inode ∧ r.chunkId > U64.toI64 boundary
  if boundaryOff = 0 then
    update fun d => d.deleteBlobs fun r => r.inode = inode ∧ r.chunkId = U64.toI64 boundary
  else do
    let data ← Body.ask fun d =>
      .ok ((d.blobs.find? (inode, U64.toI64 boundary)).map BlobsRow.data)
    match data with
    | some bytes =>
      update fun d => d.updateBlob inode (U64.toI64 boundary) (bytes.take boundaryOff)
    | none => pure ⟨⟩

def countChunks (d : Db) (inode : ℕ) : ℕ := d.blobs.count fun r => r.inode = inode

/-- The sum of the lengths; there is none, but an error, where it leaves the range of an `i64`. -/
def totalBytes (d : Db) (inode : ℕ) : Option ℕ :=
  let n := ((d.blobs.select fun r => r.inode = inode).map fun r => r.data.length).sum
  if n < 2 ^ 63 then some n else none

end Blobs

end SqliteFs
