import SqliteFs.Locks.Exclusion

/-!
# Acquiring locks, byte by byte

POSIX describes a lock table by what each owner holds on each byte, and a granted request as
setting the requested type on the bytes of its range. The records follow this model unless the
request is for a shared lock and the owner has an exclusive record that meets the range without
being the record which the request retypes: that record stays and keeps its bytes exclusive.
-/

namespace SqliteFs

namespace LockManager

/-! ### What an owner holds -/

/-- The strongest type among the records of `owner` that cover the byte `b`. -/
def heldBy (rs : List Record) (ns : Namespace) (owner : ℤ) (b : ℕ) : Option LockType :=
  let covering := rs.filter fun r => r.namespace_ = ns ∧ r.owner = owner ∧ b ∈ r.span
  if covering.any (·.type = .exclusive) then some .exclusive
  else if covering = [] then none
  else some .shared

def held (m : LockManager) (inode : ℕ) (ns : Namespace) (owner : ℤ) (b : ℕ) : Option LockType :=
  heldBy (m.records inode) ns owner b

section HeldBy
variable {rs rs' : List Record} {ns : Namespace} {owner : ℤ} {b : ℕ}

lemma heldBy_eq_exclusive : heldBy rs ns owner b = some .exclusive ↔
    ∃ r ∈ rs, r.namespace_ = ns ∧ r.owner = owner ∧ b ∈ r.span ∧ r.type = .exclusive := by
  unfold heldBy
  dsimp only
  split_ifs with h1 h2
  · obtain ⟨r, hr, htype⟩ := List.any_eq_true.mp h1
    simp only [List.mem_filter, decide_eq_true_eq] at hr htype
    exact iff_of_true rfl ⟨r, hr.1, hr.2.1, hr.2.2.1, hr.2.2.2, htype⟩
  all_goals
    refine iff_of_false (by simp) ?_
    rintro ⟨r, hr, hns, howner, hb, htype⟩
    refine h1 (List.any_eq_true.mpr ⟨r, ?_, decide_eq_true htype⟩)
    exact List.mem_filter.mpr ⟨hr, decide_eq_true ⟨hns, howner, hb⟩⟩

lemma heldBy_eq_none : heldBy rs ns owner b = none ↔
    ∀ r ∈ rs, r.namespace_ = ns → r.owner = owner → ¬ b ∈ r.span := by
  unfold heldBy
  dsimp only
  split_ifs with h1 h2
  · obtain ⟨r, hr, -⟩ := List.any_eq_true.mp h1
    simp only [List.mem_filter, decide_eq_true_eq] at hr
    exact iff_of_false (by simp) fun h => h r hr.1 hr.2.1 hr.2.2.1 hr.2.2.2
  · refine iff_of_true rfl fun r hr hns howner hb => ?_
    have := List.filter_eq_nil_iff.mp h2 r hr
    exact this (decide_eq_true ⟨hns, howner, hb⟩)
  · refine iff_of_false (by simp) fun h => h2 (List.filter_eq_nil_iff.mpr fun r hr hc => ?_)
    obtain ⟨hns, howner, hb⟩ := of_decide_eq_true hc
    exact h r hr hns howner hb

lemma heldBy_eq_shared
    (hsome : ∃ r ∈ rs, r.namespace_ = ns ∧ r.owner = owner ∧ b ∈ r.span)
    (hshared : ∀ r ∈ rs, r.namespace_ = ns → r.owner = owner → b ∈ r.span → r.type ≠ .exclusive) :
    heldBy rs ns owner b = some .shared := by
  cases h : heldBy rs ns owner b with
  | none =>
    obtain ⟨r, hr, hns, howner, hb⟩ := hsome
    exact absurd hb (heldBy_eq_none.mp h r hr hns howner)
  | some t =>
    cases t with
    | shared => rfl
    | exclusive =>
      obtain ⟨r, hr, hns, howner, hb, ht⟩ := heldBy_eq_exclusive.mp h
      exact absurd ht (hshared r hr hns howner hb)

/-- Only the owner's records that cover the byte matter. -/
lemma heldBy_congr (h : ∀ r, r.namespace_ = ns → r.owner = owner → b ∈ r.span →
    (r ∈ rs ↔ r ∈ rs')) : heldBy rs ns owner b = heldBy rs' ns owner b := by
  have hex : heldBy rs ns owner b = some .exclusive ↔ heldBy rs' ns owner b = some .exclusive := by
    rw [heldBy_eq_exclusive, heldBy_eq_exclusive]
    refine exists_congr fun r => ⟨fun ⟨hr, hns, howner, hb, ht⟩ => ?_,
      fun ⟨hr, hns, howner, hb, ht⟩ => ?_⟩
    · exact ⟨(h r hns howner hb).mp hr, hns, howner, hb, ht⟩
    · exact ⟨(h r hns howner hb).mpr hr, hns, howner, hb, ht⟩
  have hnone : heldBy rs ns owner b = none ↔ heldBy rs' ns owner b = none := by
    rw [heldBy_eq_none, heldBy_eq_none]
    refine forall_congr' fun r => ⟨fun hr hmem hns howner hb => ?_, fun hr hmem hns howner hb => ?_⟩
    · exact hr ((h r hns howner hb).mpr hmem) hns howner hb
    · exact hr ((h r hns howner hb).mp hmem) hns howner hb
  match hrs : heldBy rs ns owner b, hrs' : heldBy rs' ns owner b with
  | none, none => rfl
  | none, some t => rw [hrs, hrs'] at hnone; exact absurd (hnone.mp rfl) (by simp)
  | some t, none => rw [hrs, hrs'] at hnone; exact absurd (hnone.mpr rfl) (by simp)
  | some .shared, some .shared => rfl
  | some .exclusive, some .exclusive => rfl
  | some .shared, some .exclusive => rw [hrs, hrs'] at hex; exact absurd (hex.mpr rfl) (by simp)
  | some .exclusive, some .shared => rw [hrs, hrs'] at hex; exact absurd (hex.mp rfl) (by simp)

end HeldBy

/-! ### Requests for a lock -/

/-- A request for a lock of the POSIX or the OFD namespace. -/
structure Acquire where
  namespace_ : Namespace
  inode : ℕ
  owner : ℤ
  op : LockOp
  start : ℕ
  length : ℕ

namespace Acquire

def range (a : Acquire) : Span := rangeSpan a.start a.length

def type (a : Acquire) : LockType := lockTypeOf a.op

/-- Is `r` one of the owner's records? -/
def Owns (a : Acquire) (r : Record) : Prop := r.namespace_ = a.namespace_ ∧ r.owner = a.owner

end Acquire

/-- The request that a call makes. -/
def LockCall.acquire : LockCall → Option Acquire
  | .posixLock inode _ pid op start length _ =>
    if op = .unlock then none else some ⟨.posix, inode, pid, op, start, length⟩
  | .ofdLock inode fdId op start length _ =>
    if op = .unlock then none else some ⟨.ofd, inode, fdId, op, start, length⟩
  | _ => none

/-- The request does what POSIX says: it sets its type on the bytes of its range. -/
structure PerByte (m m' : LockManager) (a : Acquire) : Prop where
  inside : ∀ b ∈ a.range, m'.held a.inode a.namespace_ a.owner b = some a.type
  outside : ∀ b, ¬ b ∈ a.range →
    m'.held a.inode a.namespace_ a.owner b = m.held a.inode a.namespace_ a.owner b
  others : ∀ inode ns owner, (inode, ns, owner) ≠ (a.inode, a.namespace_, a.owner) →
    ∀ b, m'.held inode ns owner b = m.held inode ns owner b

/-- The owner has an exclusive record that meets the range and is not the record that the
request retypes, which is the first one on just this range. -/
def HasOtherExclusive (m : LockManager) (a : Acquire) : Prop :=
  ∃ r ∈ (m.records a.inode).eraseP (sameRange a.namespace_ a.owner a.start a.length),
    a.Owns r ∧ r.type = .exclusive ∧ r.span.Meets a.range

variable {m : LockManager} {a : Acquire}

lemma acquire_run {call : LockCall} (h : call.acquire = some a) :
    a.op ≠ .unlock ∧
      call.run m = m.namespaceLock a.namespace_ a.inode a.owner a.op a.start a.length := by
  cases call with
  | posixLock inode fdId pid op start length wait =>
    simp only [LockCall.acquire] at h
    split_ifs at h with hop
    cases h
    exact ⟨hop, rfl⟩
  | ofdLock inode fdId op start length wait =>
    simp only [LockCall.acquire] at h
    split_ifs at h with hop
    cases h
    exact ⟨hop, rfl⟩
  | flock inode fdId op wait => cases h
  | onFdClose inode fdId pid => cases h

/-- The records after a granted request. -/
lemma mem_records_acquire {call : LockCall} (h : call.acquire = some a)
    (hok : (call.run m).1 = .ok ()) (i : ℕ) (r : Record) : r ∈ (call.exec m).records i ↔
      if i = a.inode then
        r ∈ (m.records i).eraseP (sameRange a.namespace_ a.owner a.start a.length) ∨
          r = granted a.namespace_ a.op a.owner a.start a.length
      else r ∈ m.records i := by
  obtain ⟨hop, hrun⟩ := acquire_run (m := m) h
  rw [hrun] at hok
  rw [LockCall.exec, hrun]
  rcases namespaceLock_acquire m a.namespace_ a.inode a.owner a.start a.length hop with ⟨c, -, hconf⟩ | ⟨-, hgrant⟩
  · rw [hconf] at hok
    cases hok
  · rw [hgrant, records_setRecords, records_entry]
    split_ifs with hi
    · rw [hi, mem_retypeOrPush retype_sameRange]
    · rfl

lemma mem_eraseP_of_not {p : Record → Bool} {rs : List Record} {r : Record} (h : p r = false) :
    r ∈ rs.eraseP p ↔ r ∈ rs :=
  ⟨List.mem_of_mem_eraseP, fun hr => (List.mem_eraseP_of_neg (by simp [h])).mpr hr⟩

/-- A granted request sets its type on its range and touches nothing else, unless it asks for a
shared lock where the owner keeps an exclusive record. -/
theorem acquire_perByte_iff {call : LockCall} (h : call.acquire = some a)
    (hok : (call.run m).1 = .ok ()) :
    PerByte m (call.exec m) a ↔ a.op = .exclusive ∨ ¬ m.HasOtherExclusive a := by
  have hmem := mem_records_acquire h hok
  have hop : a.op ≠ .unlock := (acquire_run (m := m) h).1
  have hsame : ∀ r, sameRange a.namespace_ a.owner a.start a.length r = true → r.span = a.range := by
    intro r hr
    obtain ⟨-, -, hs, hl⟩ := sameRange_eq_true.mp hr
    rw [Record.span, hs, hl]
    rfl
  constructor
  · intro hper
    by_contra hc
    obtain ⟨hne, hother⟩ := not_or.mp hc
    obtain ⟨r, hr, hown, htype, b, hbr, hb⟩ := not_not.mp hother
    have hinside := hper.inside b hb
    have hex : (call.exec m).held a.inode a.namespace_ a.owner b = some .exclusive :=
      heldBy_eq_exclusive.mpr ⟨r, (hmem _ _).mpr (by rw [if_pos rfl]; exact Or.inl hr),
        hown.1, hown.2, hbr, htype⟩
    rw [hex, Acquire.type, lockTypeOf, if_neg hne] at hinside
    cases hinside
  · intro hcond
    refine ⟨fun b hb => ?_, fun b hb => ?_, fun i ns owner hne b => ?_⟩
    · have hnew : granted a.namespace_ a.op a.owner a.start a.length
          ∈ (call.exec m).records a.inode :=
        (hmem _ _).mpr (by rw [if_pos rfl]; exact Or.inr rfl)
      cases hop' : a.op with
      | unlock => exact absurd hop' hop
      | exclusive =>
        rw [Acquire.type, hop']
        refine heldBy_eq_exclusive.mpr ⟨_, hnew, rfl, rfl, hb, ?_⟩
        rw [hop']; rfl
      | shared =>
        rw [Acquire.type, hop']
        refine heldBy_eq_shared ⟨_, hnew, rfl, rfl, hb⟩ fun r hr hns howner hbr htype => ?_
        rw [hmem, if_pos rfl] at hr
        rcases hr with hr | rfl
        · rcases hcond with hex | hnone
          · rw [hop'] at hex
            cases hex
          · exact hnone ⟨r, hr, ⟨hns, howner⟩, htype, b, hbr, hb⟩
        · rw [hop'] at htype
          cases htype
    · refine heldBy_congr fun r _ _ hbr => ?_
      rw [hmem, if_pos rfl, mem_eraseP_of_not]
      · refine or_iff_left ?_
        rintro rfl
        exact hb hbr
      · by_contra hp
        rw [hsame r (by simpa using hp)] at hbr
        exact hb hbr
    · refine heldBy_congr fun r hns howner _ => ?_
      rw [hmem]
      split_ifs with hi
      · have hnot : ¬ (r.namespace_ = a.namespace_ ∧ r.owner = a.owner) := by
          rintro ⟨h1, h2⟩
          exact hne (by rw [hi, ← hns, ← howner, h1, h2])
        rw [mem_eraseP_of_not]
        · refine or_iff_left ?_
          rintro rfl
          exact hnot ⟨rfl, rfl⟩
        · by_contra hp
          obtain ⟨h1, h2, -⟩ := sameRange_eq_true.mp (by simpa using hp)
          exact hnot ⟨h1, h2⟩
      · rfl

/-! ### A downgrade that has no effect -/

/-- Process 100 has the first ten bytes of inode 1 to itself. -/
def oneWriter : LockManager := LockCall.exec (.posixLock 1 10 100 .exclusive 0 10 false) new

lemma reached_oneWriter : oneWriter.Reached := .next (.start rfl) (by decide)

/-- It asks for a shared lock on the first five. -/
def downgrade : LockCall := .posixLock 1 10 100 .shared 0 5 false

/-- The downgrade is granted, and the bytes stay exclusive. -/
theorem not_perByte_downgrade : oneWriter.Reached ∧ downgrade.InRange ∧
    downgrade.acquire = some ⟨.posix, 1, 100, .shared, 0, 5⟩ ∧
    (downgrade.run oneWriter).1 = .ok () ∧
    (downgrade.exec oneWriter).held 1 .posix 100 0 = some .exclusive ∧
    ¬ PerByte oneWriter (downgrade.exec oneWriter) ⟨.posix, 1, 100, .shared, 0, 5⟩ := by
  have hheld : (downgrade.exec oneWriter).held 1 .posix 100 0 = some .exclusive := by decide
  refine ⟨reached_oneWriter, by decide, rfl, rfl, hheld, fun h => ?_⟩
  have hinside := h.inside 0 (by decide)
  rw [hheld] at hinside
  exact absurd hinside (by decide)

theorem acquire_perByte_iff_downgrade :
    PerByte oneWriter (downgrade.exec oneWriter) ⟨.posix, 1, 100, .shared, 0, 5⟩ ↔
      LockOp.shared = .exclusive ∨
        ¬ oneWriter.HasOtherExclusive ⟨.posix, 1, 100, .shared, 0, 5⟩ :=
  acquire_perByte_iff (rfl : downgrade.acquire = _) rfl

end LockManager

end SqliteFs
