import SqliteFs.Python.Locks
import SqliteFs.Lib.Run

/-!
# Unlocking a range in the Python library

Unlocking drops the owner's records that overlap the range, whole, also where they reach beyond it.
-/

namespace SqliteFs

namespace Python

/-- The byte `b` belongs to a range; a length of zero stands for no end. -/
def InRange (start length b : ℤ) : Prop := start ≤ b ∧ (length = 0 ∨ b < start + length)

def Record.Covers (r : Record) (b : ℤ) : Prop := InRange r.start r.length b

lemma overlaps_of_inRange {aStart aLength bStart bLength b : ℤ} (ha : InRange aStart aLength b)
    (hb : InRange bStart bLength b) : overlaps aStart aLength bStart bLength = true := by
  have hend : ∀ {start length other : ℤ}, InRange start length b → other ≤ b →
      (rangeEnd start length).any (· ≤ other) = false := by
    intro start length other h hle
    unfold rangeEnd
    split_ifs with hzero
    · rfl
    · have hlt := h.2.resolve_left hzero
      simp
      omega
  unfold overlaps
  rw [hend ha hb.1, hend hb ha.1]
  rfl

namespace LockManager

/-- A call on the lock manager. -/
inductive LockCall
  | posixLock (inode : ℕ) (pid : ℤ) (op : LockOp) (start length : ℤ)
  | ofdLock (inode fdId : ℕ) (op : LockOp) (start length : ℤ)
  | flock (inode fdId : ℕ) (op : LockOp)
  | onFdClose (inode fdId : ℕ) (pid : ℤ)

namespace LockCall

def run (m : LockManager) : LockCall → Res PUnit × LockManager
  | .posixLock inode pid op start length => m.posixLock inode pid op start length
  | .ofdLock inode fdId op start length => m.ofdLock inode fdId op start length
  | .flock inode fdId op => m.flock inode fdId op
  | .onFdClose inode fdId pid => (.ok ⟨⟩, m.onFdClose inode fdId pid)

def exec (call : LockCall) (m : LockManager) : LockManager := (call.run m).2

/-- What the documentation asks of a call. -/
def Valid : LockCall → Prop
  | .posixLock _ _ _ start length | .ofdLock _ _ _ start length => 0 ≤ start ∧ 0 ≤ length
  | _ => True

end LockCall

/-- The lock managers that calls lead to. -/
def Reached : LockManager → Prop := Run (· = new) LockCall.exec fun _ call => call.Valid

/-- A request to unlock a range. -/
structure Release where
  kind : RecordKind
  inode : ℕ
  owner : ℤ
  start : ℤ
  length : ℤ

namespace Release

/-- Is `r` one of the owner's records? -/
def owns (a : Release) (r : Record) : Bool := r.kind = a.kind && r.owner = a.owner

/-- Does the range of `r` overlap that of the request? -/
def meets (a : Release) (r : Record) : Bool := overlaps r.start r.length a.start a.length

end Release

/-- The release that a call makes. -/
def LockCall.release : LockCall → Option Release
  | .posixLock inode pid op start length =>
    if op = .unlock then some ⟨.posix, inode, pid, start, length⟩ else none
  | .ofdLock inode fdId op start length =>
    if op = .unlock then some ⟨.ofd, inode, fdId, start, length⟩ else none
  | _ => none

/-- One of the owner's records of this type covers the byte. -/
def HoldsAs (m : LockManager) (a : Release) (type : LockType) (b : ℤ) : Prop :=
  ∃ r ∈ m.records a.inode, a.owns r ∧ r.type = type ∧ r.Covers b

/-- The release takes its range away from the owner, and does nothing else. -/
structure Releases (m m' : LockManager) (a : Release) : Prop where
  owner : ∀ type b, 0 ≤ b →
    (m'.HoldsAs a type b ↔ m.HoldsAs a type b ∧ ¬ InRange a.start a.length b)
  others : (m'.records a.inode).filter (fun r => !a.owns r)
    = (m.records a.inode).filter fun r => !a.owns r
  inodes : ∀ i, i ≠ a.inode → m'.byInode.find? i = m.byInode.find? i

/-- Where a record that overlaps the range reaches beyond it, the owner has the byte by another
record of the same type that does not overlap the range. -/
def KeptByOthers (m : LockManager) (a : Release) : Prop :=
  ∀ r ∈ m.records a.inode, a.owns r → a.meets r → ∀ b, 0 ≤ b → r.Covers b →
    ¬ InRange a.start a.length b →
    ∃ r' ∈ m.records a.inode, a.owns r' ∧ a.meets r' = false ∧ r'.type = r.type ∧ r'.Covers b

variable {m : LockManager} {inode i : ℕ} {a : Release}

lemma find?_setRecords (rs : List Record) : (m.setRecords inode rs).byInode.find? i
    = if inode = i then some ⟨inode, rs⟩ else m.byInode.find? i := by
  unfold setRecords
  rw [KeyTable.find?_put, key_slot]

lemma records_setdefault : (m.setdefault inode).records i = m.records i := by
  unfold setdefault records
  rw [find?_setRecords]
  split_ifs with hi
  · rw [hi]
    rfl
  · rfl

lemma find?_retain_of_ne {keep : Record → Bool} (h : i ≠ inode) :
    (m.retain inode keep).byInode.find? i = m.byInode.find? i := by
  unfold retain
  dsimp only
  split_ifs
  · rw [find?_setRecords, if_neg h.symm]
  · rw [KeyTable.find?_deleteWhere]
    cases hs : m.byInode.find? i with
    | none => rfl
    | some s =>
      obtain rfl : s.inode = i := (KeyTable.find?_eq_some.mp hs).2
      simp [Option.filter, h]

lemma records_retain {keep : Record → Bool} :
    (m.retain inode keep).records inode = (m.records inode).filter keep := by
  unfold retain
  dsimp only
  split_ifs with hne
  · conv_lhs => unfold records
    rw [find?_setRecords, if_pos rfl]
    rfl
  · rw [not_not.mp hne]
    unfold records
    rw [KeyTable.find?_deleteWhere]
    cases hs : m.byInode.find? inode with
    | none => rfl
    | some s =>
      have hkey : s.inode = inode := (KeyTable.find?_eq_some.mp hs).2
      simp [Option.filter, hkey]

/-- A release keeps the records that are not the owner's, or do not overlap the range. -/
lemma release_run {call : LockCall} (h : call.release = some a) :
    call.run m = (.ok ⟨⟩, (m.setdefault a.inode).retain a.inode fun r => !(a.owns r && a.meets r)) := by
  cases call with
  | posixLock inode pid op start length =>
    simp only [LockCall.release] at h
    split_ifs at h with hop
    cases h
    rw [hop]
    rfl
  | ofdLock inode fdId op start length =>
    simp only [LockCall.release] at h
    split_ifs at h with hop
    cases h
    rw [hop]
    rfl
  | flock inode fdId op => cases h
  | onFdClose inode fdId pid => cases h

lemma records_release {call : LockCall} (h : call.release = some a) :
    (call.exec m).records a.inode = (m.records a.inode).filter fun r => !(a.owns r && a.meets r) := by
  rw [LockCall.exec, release_run h, records_retain, records_setdefault]

lemma mem_release {call : LockCall} (h : call.release = some a) {r : Record} (hown : a.owns r = true) :
    r ∈ (call.exec m).records a.inode ↔ r ∈ m.records a.inode ∧ a.meets r = false := by
  rw [records_release h, List.mem_filter, hown, Bool.true_and, Bool.not_eq_true']

/-- In every table, a release is exact just if no byte goes with it that only records reaching beyond
the range cover. -/
theorem release_exact_iff {call : LockCall} (h : call.release = some a) :
    Releases m (call.exec m) a ↔ KeptByOthers m a := by
  constructor
  · intro hrel r hr hown _ b hpos hb hnot
    obtain ⟨r', hr', hown', htype, hb'⟩ :=
      (hrel.owner r.type b hpos).mpr ⟨⟨r, hr, hown, rfl, hb⟩, hnot⟩
    obtain ⟨hmem, hmeets⟩ := (mem_release h hown').mp hr'
    exact ⟨r', hmem, hown', hmeets, htype, hb'⟩
  · intro hkept
    refine ⟨fun type b hpos => ⟨?_, ?_⟩, ?_, fun i hi => ?_⟩
    · rintro ⟨r, hr, hown, htype, hb⟩
      obtain ⟨hmem, hmeets⟩ := (mem_release h hown).mp hr
      refine ⟨⟨r, hmem, hown, htype, hb⟩, fun hin => ?_⟩
      exact absurd (overlaps_of_inRange hb hin) (by rw [← Release.meets, hmeets]; exact Bool.false_ne_true)
    · rintro ⟨⟨r, hr, hown, rfl, hb⟩, hnot⟩
      cases hmeets : a.meets r with
      | false => exact ⟨r, (mem_release h hown).mpr ⟨hr, hmeets⟩, hown, rfl, hb⟩
      | true =>
        obtain ⟨r', hr', hown', hmeets', htype, hb'⟩ := hkept r hr hown hmeets b hpos hb hnot
        exact ⟨r', (mem_release h hown').mpr ⟨hr', hmeets'⟩, hown', htype, hb'⟩
    · rw [records_release h, List.filter_filter]
      refine List.filter_congr fun r _ => ?_
      cases a.owns r <;> rfl
    · rw [LockCall.exec, release_run h, find?_retain_of_ne hi]
      unfold setdefault
      rw [find?_setRecords, if_neg hi.symm]

/-! ### A byte that is lost -/

/-- Process 100 has the first hundred bytes to itself. -/
def oneWriter : LockManager := LockCall.exec (.posixLock 1 100 .exclusive 0 100) new

lemma reached_oneWriter : oneWriter.Reached := .next (.start rfl) ⟨by decide, by decide⟩

theorem release_exact_iff_oneWriter :
    Releases oneWriter (LockCall.exec (.posixLock 1 100 .unlock 0 100) oneWriter)
        ⟨.posix, 1, 100, 0, 100⟩ ↔
      KeptByOthers oneWriter ⟨.posix, 1, 100, 0, 100⟩ :=
  release_exact_iff rfl

/-- It gives up the first ten and loses them all. -/
theorem not_release_exact : ¬ ∀ (m : LockManager) (call : LockCall) (a : Release), m.Reached →
    call.release = some a → call.Valid → Releases m (call.exec m) a := by
  intro h
  have hrel := h oneWriter (.posixLock 1 100 .unlock 0 10) ⟨.posix, 1, 100, 0, 10⟩
    reached_oneWriter rfl ⟨by decide, by decide⟩
  obtain ⟨r, hr, -⟩ := (hrel.owner .exclusive 50 (by decide)).mpr
    ⟨⟨⟨.posix, .exclusive, 100, 0, 100⟩, by decide +kernel, rfl, rfl, by decide, Or.inr (by decide)⟩,
      fun hin => absurd hin.2 (by decide)⟩
  have hnone : (LockCall.exec (.posixLock 1 100 .unlock 0 10) oneWriter).records 1 = [] := by
    decide +kernel
  rw [hnone] at hr
  cases hr

end LockManager

end Python

end SqliteFs
