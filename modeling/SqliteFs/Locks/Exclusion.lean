import SqliteFs.Locks.Spans
import SqliteFs.Lib.Run

/-!
# Mutual exclusion

Two owners may cover a common byte of an inode in one namespace only if both of their records
are shared. Every call keeps this: unlocking and closing only take bytes away, and a lock is
granted only if no other owner's record that meets its range stands against it.
-/

namespace SqliteFs

namespace LockManager

/-- A call on the lock manager. -/
inductive LockCall
  | posixLock (inode : ℕ) (fdId pid : ℤ) (op : LockOp) (start length : ℕ) (wait : Bool)
  | ofdLock (inode : ℕ) (fdId : ℤ) (op : LockOp) (start length : ℕ) (wait : Bool)
  | flock (inode : ℕ) (fdId : ℤ) (op : FlockOp) (wait : Bool)
  | onFdClose (inode : ℕ) (fdId pid : ℤ)

namespace LockCall

/-- The result of the call, and the lock manager after it. -/
def run (m : LockManager) : LockCall → Res Unit × LockManager
  | .posixLock inode fdId pid op start length wait => m.posixLock inode fdId pid op start length wait
  | .ofdLock inode fdId op start length wait => m.ofdLock inode fdId op start length wait
  | .flock inode fdId op wait => m.flock inode fdId op wait
  | .onFdClose inode fdId pid => (.ok (), m.onFdClose inode fdId pid)

def exec (call : LockCall) (m : LockManager) : LockManager := (call.run m).2

/-- The range of the call ends in the range of a `u64`. -/
def InRange : LockCall → Prop
  | .posixLock _ _ _ _ start length _ => start + length < 2 ^ 64
  | .ofdLock _ _ _ start length _ => start + length < 2 ^ 64
  | _ => True

instance : DecidablePred InRange
  | .posixLock _ _ _ _ start length _ => inferInstanceAs (Decidable (start + length < 2 ^ 64))
  | .ofdLock _ _ _ start length _ => inferInstanceAs (Decidable (start + length < 2 ^ 64))
  | .flock .. => .isTrue trivial
  | .onFdClose .. => .isTrue trivial

end LockCall

/-- The lock managers that calls in range lead to. -/
def Reached : LockManager → Prop := Run (· = new) LockCall.exec fun _ call => call.InRange

/-! ### The records that a request leaves -/

section NamespaceLock
variable {m : LockManager} {ns : Namespace} {inode : ℕ} {owner : ℤ} {start length : ℕ}

/-- The record of a granted request. -/
abbrev granted (ns : Namespace) (op : LockOp) (owner : ℤ) (start length : ℕ) : Record :=
  ⟨ns, lockTypeOf op, owner, start, length⟩

lemma namespaceLock_unlock : m.namespaceLock ns inode owner .unlock start length
    = (.ok (), (m.entry inode).storeRecords inode
        ((m.records inode).flatMap (unlockRecord ns owner start length))) := by
  rw [namespaceLock, records_entry]

/-- A lock is refused for a conflict, and else retypes a record or adds one. -/
lemma namespaceLock_acquire (m : LockManager) (ns : Namespace) (inode : ℕ) (owner : ℤ)
    (start length : ℕ) {op : LockOp} (hop : op ≠ .unlock) :
    (∃ r, (m.records inode).find? (conflicts ns owner (lockTypeOf op) start length) = some r ∧
      m.namespaceLock ns inode owner op start length
        = (err (conflictError r inode start length), m)) ∨
    ((∀ r ∈ m.records inode, conflicts ns owner (lockTypeOf op) start length r = false) ∧
      m.namespaceLock ns inode owner op start length
        = (.ok (), (m.entry inode).setRecords inode (retypeOrPush (sameRange ns owner start length)
            (granted ns op owner start length) (m.records inode)))) := by
  have hrun : m.namespaceLock ns inode owner op start length =
      ((m.records inode).find? (conflicts ns owner (lockTypeOf op) start length)).elim
        (.ok (), (m.entry inode).setRecords inode
          (retypeOrPush (sameRange ns owner start length) (granted ns op owner start length)
            (m.records inode)))
        fun r => (err (conflictError r inode start length), m.entry inode) := by
    cases op with
    | unlock => exact absurd rfl hop
    | shared =>
      rw [namespaceLock, records_entry]
      · rcases (m.records inode).find? _ with _ | r <;> rfl
      · exact hop
    | exclusive =>
      rw [namespaceLock, records_entry]
      · rcases (m.records inode).find? _ with _ | r <;> rfl
      · exact hop
  cases h : (m.records inode).find? (conflicts ns owner (lockTypeOf op) start length) with
  | some r =>
    rw [h] at hrun
    refine Or.inl ⟨r, rfl, hrun.trans ?_⟩
    have hne : m.records inode ≠ [] := List.ne_nil_of_mem (List.mem_of_find?_eq_some h)
    rw [Option.elim_some, entry_eq_self m inode hne]
  | none =>
    rw [h] at hrun
    refine Or.inr ⟨fun r hr => ?_, hrun⟩
    simpa using List.find?_eq_none.mp h r hr

lemma mem_retypeOrPush {p : Record → Bool} {r x : Record}
    (hp : ∀ y, p y = true → { y with type := r.type } = r) {rs : List Record} :
    x ∈ retypeOrPush p r rs ↔ x ∈ rs.eraseP p ∨ x = r := by
  induction rs with
  | nil => simp [retypeOrPush]
  | cons y rs ih =>
    by_cases hy : p y
    · rw [retypeOrPush, if_pos hy, List.eraseP_cons_of_pos hy, hp y hy, List.mem_cons, or_comm]
    · rw [retypeOrPush, if_neg hy, List.eraseP_cons_of_neg hy, List.mem_cons, List.mem_cons, ih,
        or_assoc]

lemma sameRange_eq_true {r : Record} : sameRange ns owner start length r = true ↔
    r.namespace_ = ns ∧ r.owner = owner ∧ r.start = start ∧ r.length = length := by
  simp only [sameRange, Bool.and_eq_true, decide_eq_true_eq, and_assoc]

lemma retype_sameRange {op : LockOp} (r : Record) (h : sameRange ns owner start length r = true) :
    { r with type := (granted ns op owner start length).type }
      = granted ns op owner start length := by
  obtain ⟨rfl, rfl, rfl, rfl⟩ := sameRange_eq_true.mp h
  rfl

/-- Where a record comes from: it is a part of one of the same owner, or the lock that is granted. -/
lemma mem_namespaceLock {op : LockOp} {i : ℕ} {r : Record}
    (hr : r ∈ (m.namespaceLock ns inode owner op start length).2.records i) :
    (∃ r₀ ∈ m.records i, r₀.namespace_ = r.namespace_ ∧ r₀.owner = r.owner) ∨
      (i = inode ∧ r.namespace_ = ns ∧ r.owner = owner ∧ op ≠ .unlock ∧
        (m.namespaceLock ns inode owner op start length).1 = .ok ()) := by
  by_cases hop : op = .unlock
  · subst hop
    rw [namespaceLock_unlock, records_storeRecords, records_entry] at hr
    left
    split_ifs at hr with hi
    · obtain ⟨r₀, hr₀, hpart⟩ := List.mem_flatMap.mp hr
      refine ⟨r₀, hi ▸ hr₀, ?_⟩
      unfold unlockRecord splitRecord at hpart
      grind [leftFrag_namespace, leftFrag_owner, rightFrag_namespace, rightFrag_owner]
    · exact ⟨r, hr, rfl, rfl⟩
  · rcases namespaceLock_acquire m ns inode owner start length hop with ⟨x, -, hrun⟩ | ⟨-, hrun⟩
    · rw [hrun] at hr
      exact Or.inl ⟨r, hr, rfl, rfl⟩
    · rw [hrun] at hr ⊢
      rw [records_setRecords, records_entry] at hr
      split_ifs at hr with hi
      · rcases (mem_retypeOrPush retype_sameRange).mp hr with hold | rfl
        · exact Or.inl ⟨r, hi ▸ List.mem_of_mem_eraseP hold, rfl, rfl⟩
        · exact Or.inr ⟨hi, rfl, rfl, hop, rfl⟩
      · exact Or.inl ⟨r, hr, rfl, rfl⟩

/-- Where an inode has no records, every lock is granted. -/
lemma namespaceLock_of_nil (h : m.records inode = []) (op : LockOp) :
    (m.namespaceLock ns inode owner op start length).1 = .ok () := by
  by_cases hop : op = .unlock
  · subst hop
    rw [namespaceLock_unlock]
  · rcases namespaceLock_acquire m ns inode owner start length hop with ⟨x, hx, -⟩ | ⟨-, hrun⟩
    · rw [h] at hx
      cases hx
    · rw [hrun]

end NamespaceLock

/-! ### The invariant -/

/-- If `a` and `b` have a byte in common, then one owner has both or both are shared. -/
def Compatible (a b : Record) : Prop :=
  a.namespace_ = b.namespace_ → a.owner ≠ b.owner → a.span.Meets b.span →
    a.type = .shared ∧ b.type = .shared

lemma Compatible.symm {a b : Record} (h : Compatible a b) : Compatible b a :=
  fun hns howner hmeets => (h hns.symm howner.symm hmeets.symm).symm

/-- The invariant of the records of one inode. -/
structure Exclusive (rs : List Record) : Prop where
  inRange : ∀ r ∈ rs, r.InRange
  compatible : ∀ a ∈ rs, ∀ b ∈ rs, Compatible a b

namespace Exclusive

variable {rs rs' : List Record} {ns : Namespace} {owner : ℤ} {start length : ℕ}

lemma nil : Exclusive [] := ⟨by simp, by simp⟩

/-- Records that stand for parts of compatible records are compatible. -/
lemma of_parts (h : Exclusive rs) (hparts : ∀ p ∈ rs', p.InRange ∧ ∃ r ∈ rs,
      p.namespace_ = r.namespace_ ∧ p.owner = r.owner ∧ p.type = r.type ∧
        ∀ b ∈ p.span, b ∈ r.span) : Exclusive rs' := by
  refine ⟨fun p hp => (hparts p hp).1, fun p hp q hq hns howner hmeets => ?_⟩
  obtain ⟨-, a, ha, hans, haowner, hatype, hasub⟩ := hparts p hp
  obtain ⟨-, b, hb, hbns, hbowner, hbtype, hbsub⟩ := hparts q hq
  rw [hatype, hbtype]
  obtain ⟨x, hxp, hxq⟩ := hmeets
  refine h.compatible a ha b hb ?_ ?_ ⟨x, hasub x hxp, hbsub x hxq⟩
  · rw [← hans, ← hbns, hns]
  · rw [← haowner, ← hbowner]
    exact howner

lemma sublist (h : Exclusive rs) (hsub : ∀ r ∈ rs', r ∈ rs) : Exclusive rs' :=
  ⟨fun r hr => h.inRange r (hsub r hr),
    fun a ha b hb => h.compatible a (hsub a ha) b (hsub b hb)⟩

lemma unlock (h : Exclusive rs) (hlen : start + length < 2 ^ 64) :
    Exclusive (rs.flatMap (unlockRecord ns owner start length)) := by
  refine h.of_parts fun p hp => ?_
  obtain ⟨r, hr, hpr⟩ := List.mem_flatMap.mp hp
  obtain ⟨hrange, hns, howner, htype⟩ := unlockRecord_same (h.inRange r hr) hlen hpr
  refine ⟨hrange, r, hr, hns, howner, htype, fun b hb => ?_⟩
  exact ((exists_mem_unlockRecord (h.inRange r hr) hlen b).mp ⟨p, hpr, hb⟩).1

/-- A record that no other owner's record stands against may be added. -/
lemma acquire (h : Exclusive rs) (hlen : start + length < 2 ^ 64) {op : LockOp}
    (hfree : ∀ r ∈ rs, conflicts ns owner (lockTypeOf op) start length r = false) :
    Exclusive (retypeOrPush (sameRange ns owner start length)
      (granted ns op owner start length) rs) := by
  have hmem : ∀ x, x ∈ retypeOrPush (sameRange ns owner start length)
      (granted ns op owner start length) rs → x ∈ rs ∨ x = granted ns op owner start length :=
    fun x hx => ((mem_retypeOrPush retype_sameRange).mp hx).imp_left List.mem_of_mem_eraseP
  -- the new record against an old one
  have hnew : ∀ r ∈ rs, Compatible r (granted ns op owner start length) := by
    intro r hr hns howner hmeets
    have hover : recOverlaps r start length = true :=
      (recOverlaps_iff (h.inRange r hr) hlen).mpr hmeets
    have hconf := hfree r hr
    simp only [conflicts, hns, hover, decide_true, Bool.true_and, Bool.and_true,
      Bool.and_eq_false_iff, decide_eq_false_iff_not, Bool.or_eq_false_iff, not_not] at hconf
    rcases hconf with hsame | ⟨h1, h2⟩
    · exact absurd hsame (by simpa using howner)
    · refine ⟨?_, ?_⟩
      · cases ht : r.type with
        | shared => rfl
        | exclusive => exact absurd ht h1
      · change lockTypeOf op = .shared
        cases ht : lockTypeOf op with
        | shared => rfl
        | exclusive => exact absurd ht h2
  refine ⟨fun x hx => ?_, fun a ha b hb => ?_⟩
  · rcases hmem x hx with hx | rfl
    · exact h.inRange x hx
    · exact hlen
  · rcases hmem a ha with ha | rfl <;> rcases hmem b hb with hb | rfl
    · exact h.compatible a ha b hb
    · exact hnew a ha
    · exact (hnew b hb).symm
    · exact fun _ howner => absurd rfl howner

end Exclusive

/-- Every inode's records satisfy the invariant. -/
def Excludes (m : LockManager) : Prop := ∀ i, Exclusive (m.records i)

lemma Excludes.namespaceLock {m : LockManager} (h : m.Excludes) {start length : ℕ}
    (hlen : start + length < 2 ^ 64) (ns : Namespace) (inode : ℕ) (owner : ℤ) (op : LockOp) :
    (m.namespaceLock ns inode owner op start length).2.Excludes := by
  intro i
  by_cases hop : op = .unlock
  · subst hop
    rw [namespaceLock_unlock, records_storeRecords, records_entry]
    split_ifs
    · exact (h inode).unlock hlen
    · exact h i
  · rcases namespaceLock_acquire m ns inode owner start length hop with ⟨r, -, hrun⟩ | ⟨hfree, hrun⟩
    · rw [hrun]
      exact h i
    · rw [hrun, records_setRecords, records_entry]
      split_ifs
      · exact (h inode).acquire hlen hfree
      · exact h i

/-- Every call in range keeps the invariant. -/
lemma Excludes.exec {m : LockManager} (h : m.Excludes) {call : LockCall} (hcall : call.InRange) :
    (call.exec m).Excludes := by
  cases call with
  | posixLock inode fdId pid op start length wait => exact h.namespaceLock hcall _ _ _ _
  | ofdLock inode fdId op start length wait => exact h.namespaceLock hcall _ _ _ _
  | flock inode fdId op wait => exact h.namespaceLock (by decide) _ _ _ _
  | onFdClose inode fdId pid =>
    intro i
    change Exclusive ((m.onFdClose inode fdId pid).records i)
    rw [records_onFdClose]
    split_ifs
    · exact (h i).sublist fun r hr => (List.mem_filter.mp hr).1
    · exact h i

lemma Reached.excludes {m : LockManager} (h : m.Reached) : m.Excludes :=
  h.invariant (by rintro m rfl i; exact .nil) fun _ _ _ hcall hm => hm.exec hcall

/-- Whatever calls are made, two owners cover a common byte only with shared records. -/
theorem mutual_exclusion {m : LockManager} (h : m.Reached) {inode : ℕ} {a b : Record}
    (ha : a ∈ m.records inode) (hb : b ∈ m.records inode) (hns : a.namespace_ = b.namespace_)
    (howner : a.owner ≠ b.owner) {x : ℕ} (hxa : x ∈ a.span) (hxb : x ∈ b.span) :
    a.type = .shared ∧ b.type = .shared :=
  (h.excludes inode).compatible a ha b hb hns howner ⟨x, hxa, hxb⟩

/-- Process `pid` reads from the first byte on. -/
def reader (pid : ℤ) (length : ℕ) : Record := ⟨.posix, .shared, pid, 0, length⟩

/-- Two processes read one file. -/
def twoReaders : LockManager :=
  Run.after LockCall.exec
    [.posixLock 1 10 100 .shared 0 0 false, .posixLock 1 11 200 .shared 0 10 false] new

lemma reached_twoReaders : twoReaders.Reached :=
  .next (.next (.start rfl) (by decide)) (by decide)

theorem mutual_exclusion_twoReaders :
    (reader 100 0).type = .shared ∧ (reader 200 10).type = .shared :=
  mutual_exclusion reached_twoReaders (by decide : reader 100 0 ∈ twoReaders.records 1)
    (by decide : reader 200 10 ∈ twoReaders.records 1) rfl (by decide)
    (by decide : 5 ∈ (reader 100 0).span) (by decide)

end LockManager

end SqliteFs
