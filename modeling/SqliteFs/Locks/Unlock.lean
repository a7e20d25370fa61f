import SqliteFs.Locks.Exclusion

/-!
# Unlocking a range

Unlocking takes the bytes of its range away from the owner's records, and from nothing else. This is
so in every table that calls can lead to, also where a record has an end that has wrapped around:
such a record covers nothing, and no fragment of it is ever made.
-/

namespace SqliteFs

/-- The numbers of the record are `u64`s. -/
def Record.Fits (r : Record) : Prop := r.start < 2 ^ 64 ∧ r.length < 2 ^ 64

/-- The record covers the byte `b`: it has started, and has not ended. -/
def Record.Holds (r : Record) (b : ℕ) : Prop := r.start ≤ b ∧ ∀ e ∈ r.end_, b < e

variable {r p : Record} {start length b : ℕ}

/-- Where the end of a record is in range, it covers the bytes of its span. -/
lemma Record.holds_iff (hr : r.InRange) : r.Holds b ↔ b ∈ r.span := by
  unfold Holds
  rw [end_eq hr]
  rfl

/-- Where it is not, the record ends before it starts. -/
lemma Record.end_of_not_inRange (hfits : r.Fits) (hr : ¬ r.InRange) :
    ∃ e, r.end_ = some e ∧ e < r.start := by
  unfold InRange at hr
  obtain ⟨hstart, hlength⟩ := hfits
  have hne : r.length ≠ 0 := by omega
  refine ⟨U64.add r.start r.length, if_neg hne, ?_⟩
  unfold U64.add
  omega

lemma Record.not_holds (hfits : r.Fits) (hr : ¬ r.InRange) : ¬ r.Holds b := by
  obtain ⟨e, he, hlt⟩ := end_of_not_inRange hfits hr
  rintro ⟨hstart, hend⟩
  exact absurd (hend e he) (by omega)

namespace LockManager

/-! ### One record -/

/-- Nothing is left of a record whose end has wrapped around. -/
lemma splitRecord_of_not_inRange (hfits : r.Fits) (hr : ¬ r.InRange)
    (hover : recOverlaps r start length = true) : splitRecord r start length = [] := by
  obtain ⟨e, he, hlt⟩ := r.end_of_not_inRange hfits hr
  obtain ⟨hstart, hend⟩ := overlaps_iff.mp hover
  have hbegins : start < e := hstart e he
  unfold splitRecord
  rw [if_neg (by omega), List.nil_append, he]
  cases hrange : rangeEnd start length with
  | none => rfl
  | some ue =>
    have hue : r.start < ue := hend ue hrange
    exact if_neg (by simp; omega)

lemma unlockRecord_of_not_inRange {ns : Namespace} {owner : ℤ} (hfits : r.Fits) (hr : ¬ r.InRange)
    (hp : p ∈ unlockRecord ns owner start length r) : p = r := by
  unfold unlockRecord at hp
  split_ifs at hp with hother hover
  · exact List.mem_singleton.mp hp
  · rw [splitRecord_of_not_inRange hfits hr hover] at hp
    cases hp
  · exact List.mem_singleton.mp hp

/-- A record that unlocking leaves is the record or a fragment of it; the lock is the same. -/
lemma unlockRecord_parts {ns : Namespace} {owner : ℤ} (hfits : r.Fits)
    (h : start + length < 2 ^ 64) (hp : p ∈ unlockRecord ns owner start length r) :
    p.Fits ∧ p.namespace_ = r.namespace_ ∧ p.owner = r.owner ∧ p.type = r.type := by
  by_cases hr : r.InRange
  · obtain ⟨hrange, hsame⟩ := unlockRecord_same hr h hp
    unfold Record.InRange at hrange
    exact ⟨⟨by omega, by omega⟩, hsame⟩
  · rw [unlockRecord_of_not_inRange hfits hr hp]
    exact ⟨hfits, rfl, rfl, rfl⟩

/-- Unlocking takes just the bytes of the range out of the owner's record. -/
lemma exists_holds_unlockRecord {ns : Namespace} {owner : ℤ} (hfits : r.Fits)
    (h : start + length < 2 ^ 64) :
    (∃ p ∈ unlockRecord ns owner start length r, p.Holds b) ↔
      r.Holds b ∧ ¬ (r.namespace_ = ns ∧ r.owner = owner ∧ b ∈ rangeSpan start length) := by
  by_cases hr : r.InRange
  · rw [Record.holds_iff hr, ← exists_mem_unlockRecord hr h b]
    refine exists_congr fun p => and_congr_right fun hp => ?_
    exact Record.holds_iff (unlockRecord_same hr h hp).1
  · refine iff_of_false ?_ fun hb => r.not_holds hfits hr hb.1
    rintro ⟨p, hp, hb⟩
    rw [unlockRecord_of_not_inRange hfits hr hp] at hb
    exact r.not_holds hfits hr hb

/-- A fragment without end is one of a record without end. -/
lemma length_eq_zero_of_unlockRecord {ns : Namespace} {owner : ℤ} (hfits : r.Fits)
    (h : start + length < 2 ^ 64) (hp : p ∈ unlockRecord ns owner start length r)
    (hzero : p.length = 0) : r.length = 0 := by
  by_contra hne
  by_cases hr : r.InRange
  · have hpr := (unlockRecord_same hr h hp).1
    -- a record without end has bytes behind the end of `r`
    have hfar : p.start + r.start + r.length ∈ p.span := by
      unfold Record.span rangeSpan
      rw [if_pos hzero]
      exact ⟨by dsimp only; omega, fun e he => nomatch he⟩
    have hb := ((exists_mem_unlockRecord hr h _).mp ⟨p, hp, hfar⟩).1
    unfold Record.span rangeSpan at hb
    rw [if_neg hne] at hb
    have hend : p.start + r.start + r.length < r.start + r.length := hb.2 _ rfl
    omega
  · rw [unlockRecord_of_not_inRange hfits hr hp] at hzero
    exact hne hzero

/-! ### The tables that calls lead to -/

/-- The numbers of the call are `u64`s. -/
def LockCall.IsU64 : LockCall → Prop
  | .posixLock _ _ _ _ start length _ | .ofdLock _ _ _ start length _ =>
    start < 2 ^ 64 ∧ length < 2 ^ 64
  | _ => True

/-- The lock managers that any calls lead to. -/
def ReachedAny : LockManager → Prop := Run (· = new) LockCall.exec fun _ call => call.IsU64

lemma sub_lt (a b : ℕ) : U64.sub a b < 2 ^ 64 := by
  unfold U64.sub
  omega

lemma rangeEnd_lt {ue : ℕ} (h : rangeEnd start length = some ue) : ue < 2 ^ 64 := by
  unfold rangeEnd U64.add at h
  split_ifs at h
  cases h
  omega

lemma leftFrag_length_lt : (leftFrag r start).length < 2 ^ 64 := by
  have hlen : (leftFrag r start).length
      = U64.sub (r.end_.elim start fun e => min e start) r.start := by rw [leftFrag]
  rw [hlen]
  exact sub_lt _ _

lemma rightFrag_length_lt {ue : ℕ} : (rightFrag r ue).length < 2 ^ 64 := by
  have hlen : (rightFrag r ue).length = r.end_.elim 0 fun e => U64.sub e ue := by rw [rightFrag]
  rw [hlen]
  cases r.end_ with
  | none =>
    rw [Option.elim_none]
    omega
  | some e =>
    rw [Option.elim_some]
    exact sub_lt _ _

lemma splitRecord_fits (hfits : r.Fits) (hp : p ∈ splitRecord r start length) : p.Fits := by
  unfold splitRecord at hp
  unfold Record.Fits
  rcases List.mem_append.mp hp with hp | hp
  · split_ifs at hp
    · rw [List.mem_singleton.mp hp, leftFrag_start]
      exact ⟨hfits.1, leftFrag_length_lt⟩
    · cases hp
  · cases hue : rangeEnd start length with
    | none =>
      rw [hue] at hp
      cases hp
    | some ue =>
      rw [hue] at hp
      dsimp only at hp
      split_ifs at hp
      · rw [List.mem_singleton.mp hp, rightFrag_start]
        exact ⟨rangeEnd_lt hue, rightFrag_length_lt⟩
      · cases hp

lemma namespaceLock_fits {m : LockManager} (hm : ∀ i, ∀ r ∈ m.records i, r.Fits) {ns : Namespace}
    {inode : ℕ} {owner : ℤ} {op : LockOp} (hs : start < 2 ^ 64) (hl : length < 2 ^ 64) :
    ∀ i, ∀ r ∈ (m.namespaceLock ns inode owner op start length).2.records i, r.Fits := by
  intro i r hr
  by_cases hop : op = .unlock
  · subst hop
    rw [namespaceLock_unlock, records_storeRecords, records_entry] at hr
    split_ifs at hr with hi
    · obtain ⟨r₀, hr₀, hpart⟩ := List.mem_flatMap.mp hr
      unfold unlockRecord at hpart
      split_ifs at hpart
      · exact List.mem_singleton.mp hpart ▸ hm _ _ hr₀
      · exact splitRecord_fits (hm _ _ hr₀) hpart
      · exact List.mem_singleton.mp hpart ▸ hm _ _ hr₀
    · exact hm i r hr
  · rcases namespaceLock_acquire m ns inode owner start length hop with ⟨x, -, hrun⟩ | ⟨-, hrun⟩
    · rw [hrun] at hr
      exact hm i r hr
    · rw [hrun, records_setRecords, records_entry] at hr
      split_ifs at hr with hi
      · rcases (mem_retypeOrPush retype_sameRange).mp hr with hold | rfl
        · exact hm _ r (List.mem_of_mem_eraseP hold)
        · exact ⟨hs, hl⟩
      · exact hm i r hr

lemma ReachedAny.fits {m : LockManager} (h : m.ReachedAny) : ∀ i, ∀ r ∈ m.records i, r.Fits := by
  refine Run.invariant (P := fun m => ∀ i, ∀ r ∈ m.records i, r.Fits)
    (by rintro _ rfl i r hr; cases hr) (fun m call _ hcall hm => ?_) h
  cases call with
  | posixLock inode fdId pid op start length wait => exact namespaceLock_fits hm hcall.1 hcall.2
  | ofdLock inode fdId op start length wait => exact namespaceLock_fits hm hcall.1 hcall.2
  | flock inode fdId op wait => exact namespaceLock_fits hm (Nat.two_pow_pos 64) (Nat.two_pow_pos 64)
  | onFdClose inode fdId pid =>
    intro i r hr
    change r ∈ (m.onFdClose inode fdId pid).records i at hr
    rw [records_onFdClose] at hr
    split_ifs at hr
    · exact hm i r (List.mem_filter.mp hr).1
    · exact hm i r hr

/-! ### Unlocking -/

/-- A request to unlock a range in the POSIX or the OFD namespace. -/
structure Release where
  namespace_ : Namespace
  inode : ℕ
  owner : ℤ
  start : ℕ
  length : ℕ

namespace Release

def range (a : Release) : Span := rangeSpan a.start a.length

/-- Is `r` one of the owner's records? -/
def owns (a : Release) (r : Record) : Bool := r.namespace_ = a.namespace_ ∧ r.owner = a.owner

end Release

/-- The release that a call makes. -/
def LockCall.release : LockCall → Option Release
  | .posixLock inode _ pid op start length _ =>
    if op = .unlock then some ⟨.posix, inode, pid, start, length⟩ else none
  | .ofdLock inode fdId op start length _ =>
    if op = .unlock then some ⟨.ofd, inode, fdId, start, length⟩ else none
  | _ => none

/-- One of the owner's records of this type covers the byte. -/
def HoldsAs (m : LockManager) (a : Release) (type : LockType) (b : ℕ) : Prop :=
  ∃ r ∈ m.records a.inode, a.owns r ∧ r.type = type ∧ r.Holds b

/-- The release takes its range away from the owner, and does nothing else. -/
structure Releases (m m' : LockManager) (a : Release) : Prop where
  owner : ∀ type b, m'.HoldsAs a type b ↔ m.HoldsAs a type b ∧ ¬ b ∈ a.range
  others : (m'.records a.inode).filter (fun r => !a.owns r)
    = (m.records a.inode).filter fun r => !a.owns r
  inodes : ∀ i, i ≠ a.inode → m'.byInode.find? i = m.byInode.find? i
  -- a length of zero says that there is no end
  proper : ∀ r ∈ m'.records a.inode, a.owns r → r.length = 0 →
    ∃ r₀ ∈ m.records a.inode, a.owns r₀ ∧ r₀.type = r.type ∧ r₀.length = 0
  empty : m'.records a.inode = [] → m'.byInode.find? a.inode = none

section Release
variable {m : LockManager} {a : Release}

lemma release_run {call : LockCall} (h : call.release = some a) :
    call.run m = m.namespaceLock a.namespace_ a.inode a.owner .unlock a.start a.length := by
  cases call with
  | posixLock inode fdId pid op start length wait =>
    simp only [LockCall.release] at h
    split_ifs at h with hop
    cases h
    rw [hop]
    rfl
  | ofdLock inode fdId op start length wait =>
    simp only [LockCall.release] at h
    split_ifs at h with hop
    cases h
    rw [hop]
    rfl
  | flock inode fdId op wait => cases h
  | onFdClose inode fdId pid => cases h

lemma owns_iff : a.owns r = true ↔ r.namespace_ = a.namespace_ ∧ r.owner = a.owner :=
  decide_eq_true_iff

lemma unlockRecord_of_not_owns (h : a.owns r = false) :
    unlockRecord a.namespace_ a.owner start length r = [r] := by
  refine if_pos ?_
  have hnot := mt owns_iff.mpr (by rw [h]; exact Bool.false_ne_true)
  tauto

/-- The others' records stay as they are, and where they are. -/
lemma filter_flatMap_unlockRecord {rs : List Record} (hfits : ∀ r ∈ rs, r.Fits)
    (h : a.start + a.length < 2 ^ 64) :
    (rs.flatMap (unlockRecord a.namespace_ a.owner a.start a.length)).filter (fun r => !a.owns r)
      = rs.filter fun r => !a.owns r := by
  induction rs with
  | nil => rfl
  | cons r rs ih =>
    obtain ⟨hr, hrs⟩ := List.forall_mem_cons.mp hfits
    rw [List.flatMap_cons, List.filter_append, ih hrs]
    cases hown : a.owns r with
    | false =>
      rw [unlockRecord_of_not_owns hown]
      simp [hown]
    | true =>
      have hnone : (unlockRecord a.namespace_ a.owner a.start a.length r).filter
          (fun r => !a.owns r) = [] := by
        refine List.filter_eq_nil_iff.mpr fun p hp => ?_
        obtain ⟨-, hns, howner, -⟩ := unlockRecord_parts hr h hp
        have howns : a.owns p = true := owns_iff.mpr ⟨hns.trans (owns_iff.mp hown).1,
          howner.trans (owns_iff.mp hown).2⟩
        simp [howns]
      rw [hnone]
      simp [hown]

lemma find?_entry_of_ne {i inode : ℕ} (h : i ≠ inode) :
    (m.entry inode).byInode.find? i = m.byInode.find? i := by
  unfold entry
  cases m.byInode.find? inode with
  | some s => rfl
  | none =>
    dsimp only
    rw [KeyTable.find?_put, key_slot, if_neg h.symm]

lemma find?_storeRecords_of_ne {i inode : ℕ} {rs : List Record} (h : i ≠ inode) :
    (m.storeRecords inode rs).byInode.find? i = m.byInode.find? i := by
  unfold storeRecords remove setRecords
  split_ifs
  · rw [KeyTable.find?_deleteWhere]
    cases hs : m.byInode.find? i with
    | none => rfl
    | some s =>
      obtain rfl : s.inode = i := (KeyTable.find?_eq_some.mp hs).2
      simp [Option.filter, h]
  · rw [KeyTable.find?_put, key_slot, if_neg h.symm]

/-- Unlocking a range is exact, whatever calls have been made before. -/
theorem unlock_releases (hm : m.ReachedAny) {call : LockCall} (hcall : call.release = some a)
    (h : a.start + a.length < 2 ^ 64) :
    (call.run m).1 = .ok () ∧ Releases m (call.exec m) a := by
  have hfits := hm.fits a.inode
  rw [LockCall.exec, release_run hcall, namespaceLock_unlock]
  have hrecords : ((m.entry a.inode).storeRecords a.inode ((m.records a.inode).flatMap
      (unlockRecord a.namespace_ a.owner a.start a.length))).records a.inode
      = (m.records a.inode).flatMap (unlockRecord a.namespace_ a.owner a.start a.length) := by
    rw [records_storeRecords, if_pos rfl]
  refine ⟨rfl, fun type b => ?_, ?_, fun i hi => ?_, fun p hp hown hzero => ?_, fun hnil => ?_⟩
  · unfold HoldsAs
    rw [hrecords]
    constructor
    · rintro ⟨p, hp, hown, rfl, hb⟩
      obtain ⟨r, hr, hpr⟩ := List.mem_flatMap.mp hp
      obtain ⟨-, hns, howner, htype⟩ := unlockRecord_parts (hfits r hr) h hpr
      obtain ⟨hrb, hnot⟩ := (exists_holds_unlockRecord (hfits r hr) h).mp ⟨p, hpr, hb⟩
      obtain ⟨hpns, hpowner⟩ := owns_iff.mp hown
      have hrown := And.intro (hns.symm.trans hpns) (howner.symm.trans hpowner)
      exact ⟨⟨r, hr, owns_iff.mpr hrown, htype.symm, hrb⟩, fun hin => hnot ⟨hrown.1, hrown.2, hin⟩⟩
    · rintro ⟨⟨r, hr, hown, rfl, hb⟩, hnot⟩
      obtain ⟨p, hpr, hpb⟩ := (exists_holds_unlockRecord (hfits r hr) h).mpr
        ⟨hb, fun hin => hnot hin.2.2⟩
      obtain ⟨-, hns, howner, htype⟩ := unlockRecord_parts (hfits r hr) h hpr
      obtain ⟨hrns, hrowner⟩ := owns_iff.mp hown
      exact ⟨p, List.mem_flatMap.mpr ⟨r, hr, hpr⟩,
        owns_iff.mpr ⟨hns.trans hrns, howner.trans hrowner⟩, htype, hpb⟩
  · rw [hrecords]
    exact filter_flatMap_unlockRecord hfits h
  · rw [find?_storeRecords_of_ne hi, find?_entry_of_ne hi]
  · rw [hrecords] at hp
    obtain ⟨r, hr, hpr⟩ := List.mem_flatMap.mp hp
    obtain ⟨-, hns, howner, htype⟩ := unlockRecord_parts (hfits r hr) h hpr
    obtain ⟨hpns, hpowner⟩ := owns_iff.mp hown
    exact ⟨r, hr, owns_iff.mpr ⟨hns.symm.trans hpns, howner.symm.trans hpowner⟩, htype.symm,
      length_eq_zero_of_unlockRecord (hfits r hr) h hpr hzero⟩
  · rw [hrecords] at hnil
    unfold storeRecords
    rw [if_pos hnil, remove, KeyTable.find?_deleteWhere]
    cases hs : (m.entry a.inode).byInode.find? a.inode with
    | none => rfl
    | some s =>
      have hkey : s.inode = a.inode := (KeyTable.find?_eq_some.mp hs).2
      simp [Option.filter, hkey]

end Release

/-- A process has locked a whole file. -/
def lockedFile : LockManager := LockCall.exec (.posixLock 1 10 100 .exclusive 0 0 false) new

/-- It unlocks ten bytes of the file. -/
abbrev unlockTen : LockCall := .posixLock 1 10 100 .unlock 5 10 false

/-- The process has the byte 7 before, and not after; and the byte 20 before and after. -/
theorem unlock_releases_lockedFile :
    (unlockTen.run lockedFile).1 = .ok () ∧
    Releases lockedFile (unlockTen.exec lockedFile) ⟨.posix, 1, 100, 5, 10⟩ ∧
    lockedFile.HoldsAs ⟨.posix, 1, 100, 5, 10⟩ .exclusive 7 ∧
    ¬ (unlockTen.exec lockedFile).HoldsAs ⟨.posix, 1, 100, 5, 10⟩ .exclusive 7 ∧
    lockedFile.HoldsAs ⟨.posix, 1, 100, 5, 10⟩ .exclusive 20 ∧
    (unlockTen.exec lockedFile).HoldsAs ⟨.posix, 1, 100, 5, 10⟩ .exclusive 20 := by
  have hreached : lockedFile.ReachedAny :=
    .next (.start rfl) (by unfold LockCall.IsU64; decide)
  have hheld : ∀ b, lockedFile.HoldsAs ⟨.posix, 1, 100, 5, 10⟩ .exclusive b := fun b =>
    ⟨⟨.posix, .exclusive, 100, 0, 0⟩, by decide, by decide, rfl, Nat.zero_le b, fun e he => by cases he⟩
  have hrelease : unlockTen.release = some ⟨.posix, 1, 100, 5, 10⟩ := rfl
  obtain ⟨hok, hreleases⟩ := unlock_releases hreached hrelease (by decide)
  refine ⟨hok, hreleases, hheld 7, fun h => ?_, hheld 20, ?_⟩
  · exact ((hreleases.owner .exclusive 7).mp h).2 (by decide)
  · exact (hreleases.owner .exclusive 20).mpr ⟨hheld 20, by decide⟩

end LockManager

end SqliteFs
