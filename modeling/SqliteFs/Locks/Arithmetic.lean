import SqliteFs.Locks.Independence
import SqliteFs.Lib.Checked

/-!
# The arithmetic of ranges

The lock manager adds the start and the length of a range without a check. Here are its functions
with checked arithmetic, where there is no result if a sum or a difference is out of range. For
ranges that end in range they have all the results of the unchecked ones, and the overlap test is
exact; a range that does not lets two owners have the same byte to themselves.
-/

namespace SqliteFs

namespace LockManager

/-! ### The functions with checks -/

namespace Checking

def rangeEnd (start length : ℕ) : Option (Option ℕ) :=
  if length = 0 then some none else (Checked.add start length).map some

def recOverlaps (rec : Record) (start length : ℕ) : Option Bool := do
  let bEnd ← rangeEnd start length
  let aEnd ← rangeEnd rec.start rec.length
  return overlaps rec.start aEnd start bEnd

def leftFrag (r : Record) (rEnd : Option ℕ) (start : ℕ) : Option Record := do
  let length ← Checked.sub (rEnd.elim start fun e => min e start) r.start
  return { r with length := length }

def rightFrag (r : Record) (rEnd : Option ℕ) (ue : ℕ) : Option Record := do
  let length ← rEnd.elim (some 0) fun e => Checked.sub e ue
  return { r with start := ue, length := length }

/-- What is left before the range. -/
def leftPart (r : Record) (rEnd : Option ℕ) (start : ℕ) : Option (List Record) :=
  if r.start < start then (leftFrag r rEnd start).map ([·]) else some []

/-- What is left behind the range. -/
def rightPart (r : Record) (rEnd : Option ℕ) : Option ℕ → Option (List Record)
  | some ue => if rEnd.all (ue < ·) then (rightFrag r rEnd ue).map ([·]) else some []
  | none => some []

def splitRecord (r : Record) (start length : ℕ) : Option (List Record) := do
  let unlockEnd ← rangeEnd start length
  let rEnd ← rangeEnd r.start r.length
  let left ← leftPart r rEnd start
  let right ← rightPart r rEnd unlockEnd
  return left ++ right

def unlockRecord (namespace_ : Namespace) (owner : ℤ) (start length : ℕ) (r : Record) :
    Option (List Record) :=
  if r.namespace_ ≠ namespace_ ∨ r.owner ≠ owner then some [r]
  else do
    let overlap ← recOverlaps r start length
    if ¬ overlap then some [r] else splitRecord r start length

/-- The loop that unlocks. -/
def unlockAll (namespace_ : Namespace) (owner : ℤ) (start length : ℕ) :
    List Record → Option (List Record)
  | [] => some []
  | r :: rs => do
    let kept ← unlockRecord namespace_ owner start length r
    let rest ← unlockAll namespace_ owner start length rs
    return kept ++ rest

/-- The loop that looks for a conflict. -/
def firstConflict (namespace_ : Namespace) (owner : ℤ) (newType : LockType) (start length : ℕ) :
    List Record → Option (Option Record)
  | [] => some none
  | r :: rs =>
    if r.namespace_ = namespace_ ∧ r.owner ≠ owner then do
      let overlap ← recOverlaps r start length
      if overlap ∧ (r.type = .exclusive ∨ newType = .exclusive) then some (some r)
      else firstConflict namespace_ owner newType start length rs
    else firstConflict namespace_ owner newType start length rs

def namespaceLock (m : LockManager) (namespace_ : Namespace) (inode : ℕ) (owner : ℤ) (op : LockOp)
    (start length : ℕ) : Option (Res Unit × LockManager) :=
  let m := m.entry inode
  let records := m.records inode
  match op with
  | .unlock => do
    let out ← unlockAll namespace_ owner start length records
    return (.ok (), m.storeRecords inode out)
  | op => do
    let newType := lockTypeOf op
    let conflict ← firstConflict namespace_ owner newType start length records
    match conflict with
    | some r => return (err (conflictError r inode start length), m)
    | none =>
      return (.ok (), m.setRecords inode (retypeOrPush (sameRange namespace_ owner start length)
        ⟨namespace_, newType, owner, start, length⟩ records))

/-- The loop of `getlk`. -/
def firstFound (namespace_ : Namespace) (owner : ℤ) (start length : ℕ) :
    List Record → Option (Option Record)
  | [] => some none
  | r :: rs =>
    if r.namespace_ = namespace_ ∧ r.owner ≠ owner then do
      let overlap ← recOverlaps r start length
      if overlap then some (some r) else firstFound namespace_ owner start length rs
    else firstFound namespace_ owner start length rs

def getlk (m : LockManager) (namespace_ : Namespace) (inode : ℕ) (owner : ℤ) (start length : ℕ) :
    Option (Option LockQuery) := do
  let found ← firstFound namespace_ owner start length (m.records inode)
  return found.map fun r => ⟨r.type, r.owner, U64.toI64 r.start, U64.toI64 r.length⟩

def flockOp : FlockOp → LockOp
  | .shared => .shared
  | .exclusive => .exclusive
  | .unlock => .unlock

/-- A request, with checks. -/
def step (m : LockManager) : Request → Option (Answer × LockManager)
  | .call (.posixLock inode _ pid op start length _) =>
    (namespaceLock m .posix inode pid op start length).map fun o => (.outcome o.1, o.2)
  | .call (.ofdLock inode fdId op start length _) =>
    (namespaceLock m .ofd inode fdId op start length).map fun o => (.outcome o.1, o.2)
  | .call (.flock inode fdId op _) =>
    (namespaceLock m .flock inode fdId (flockOp op) 0 0).map fun o => (.outcome o.1, o.2)
  | .call (.onFdClose inode fdId pid) => some (.outcome (.ok ()), m.onFdClose inode fdId pid)
  | .posixGetlk inode _ pid start length =>
    (getlk m .posix inode pid start length).map fun q => (.query q, m)
  | .ofdGetlk inode fdId start length =>
    (getlk m .ofd inode fdId start length).map fun q => (.query q, m)

end Checking

/-! ### They have a result -/

section Results
variable {r : Record} {rs : List Record} {m : LockManager} {ns : Namespace} {owner : ℤ}
  {inode start length : ℕ}

lemma checking_rangeEnd (h : start + length < 2 ^ 64) :
    Checking.rangeEnd start length = some (rangeEnd start length) := by
  unfold Checking.rangeEnd rangeEnd
  split_ifs
  · rfl
  · rw [Checked.add_of_lt h, U64.add_of_lt h]
    rfl

lemma checking_recOverlaps (hr : r.InRange) (h : start + length < 2 ^ 64) :
    Checking.recOverlaps r start length = some (recOverlaps r start length) := by
  unfold Checking.recOverlaps
  rw [checking_rangeEnd h, checking_rangeEnd hr]
  rfl

/-- The record does not end before the left fragment does. -/
lemma checking_leftFrag (hr : r.InRange) (hs : start < 2 ^ 64) (hlt : r.start < start) :
    Checking.leftFrag r r.end_ start = some (leftFrag r start) := by
  have hle : r.start ≤ r.end_.elim start fun e => min e start := by
    by_cases h0 : r.length = 0
    · rw [end_of_length_eq_zero h0]
      exact hlt.le
    · rw [end_of_length_ne_zero hr h0]
      exact le_min (Nat.le_add_right _ _) hlt.le
  have hmin : (r.end_.elim start fun e => min e start) < 2 ^ 64 := by
    cases r.end_ with
    | none => exact hs
    | some e => exact (min_le_right e start).trans_lt hs
  unfold Checking.leftFrag leftFrag
  rw [Checked.sub_of_le hle, U64.sub_of_le hle hmin]
  rfl

lemma checking_rightFrag {ue : ℕ} (hr : r.InRange) (hall : r.end_.all (ue < ·) = true) :
    Checking.rightFrag r r.end_ ue = some (rightFrag r ue) := by
  unfold Checking.rightFrag rightFrag
  by_cases h0 : r.length = 0
  · rw [end_of_length_eq_zero h0]
    rfl
  · rw [end_of_length_ne_zero hr h0] at hall ⊢
    have hlt : ue < r.start + r.length := by simpa using hall
    rw [Option.elim_some, Option.elim_some, Checked.sub_of_le hlt.le, U64.sub_of_le hlt.le hr]
    rfl

lemma checking_leftPart (hr : r.InRange) (hs : start < 2 ^ 64) :
    Checking.leftPart r r.end_ start
      = some (if r.start < start then [leftFrag r start] else []) := by
  unfold Checking.leftPart
  split_ifs with hlt
  · rw [checking_leftFrag hr hs hlt]
    rfl
  · rfl

lemma checking_rightPart (hr : r.InRange) (ue : Option ℕ) : Checking.rightPart r r.end_ ue
    = some (match ue with
      | some ue => if r.end_.all (ue < ·) then [rightFrag r ue] else []
      | none => []) := by
  cases ue with
  | none => rfl
  | some ue =>
    rw [Checking.rightPart]
    dsimp only
    split_ifs with hall
    · rw [checking_rightFrag hr hall]
      rfl
    · rfl

lemma checking_splitRecord (hr : r.InRange) (h : start + length < 2 ^ 64) :
    Checking.splitRecord r start length = some (splitRecord r start length) := by
  have hs : start < 2 ^ 64 := by omega
  have hend : Checking.rangeEnd r.start r.length = some r.end_ := checking_rangeEnd hr
  unfold Checking.splitRecord splitRecord
  rw [checking_rangeEnd h, hend]
  dsimp only [Option.bind_eq_bind, Option.bind_some]
  rw [checking_leftPart hr hs, checking_rightPart hr]
  rfl

lemma checking_unlockRecord (hr : r.InRange) (h : start + length < 2 ^ 64) :
    Checking.unlockRecord ns owner start length r = some (unlockRecord ns owner start length r) := by
  unfold Checking.unlockRecord unlockRecord
  rw [checking_recOverlaps hr h, Option.bind_eq_bind, Option.bind_some]
  split_ifs
  · rfl
  · exact checking_splitRecord hr h
  · rfl

lemma checking_unlockAll (hrs : ∀ r ∈ rs, r.InRange) (h : start + length < 2 ^ 64) :
    Checking.unlockAll ns owner start length rs
      = some (rs.flatMap (unlockRecord ns owner start length)) := by
  induction rs with
  | nil => rfl
  | cons r rs ih =>
    obtain ⟨hr, hrs⟩ := List.forall_mem_cons.mp hrs
    rw [Checking.unlockAll, checking_unlockRecord hr h, ih hrs, List.flatMap_cons]
    rfl

lemma checking_firstConflict {newType : LockType} (hrs : ∀ r ∈ rs, r.InRange)
    (h : start + length < 2 ^ 64) : Checking.firstConflict ns owner newType start length rs
      = some (rs.find? (conflicts ns owner newType start length)) := by
  induction rs with
  | nil => rfl
  | cons r rs ih =>
    obtain ⟨hr, hrs⟩ := List.forall_mem_cons.mp hrs
    rw [Checking.firstConflict, checking_recOverlaps hr h, ih hrs, Option.bind_eq_bind,
      Option.bind_some, List.find?_cons]
    unfold conflicts
    by_cases hns : r.namespace_ = ns <;> by_cases howner : r.owner = owner <;>
      cases recOverlaps r start length <;> simp [hns, howner]
    by_cases ht : r.type = .exclusive <;> by_cases hnew : newType = .exclusive <;> simp [ht, hnew]

lemma checking_firstFound (hrs : ∀ r ∈ rs, r.InRange) (h : start + length < 2 ^ 64) :
    Checking.firstFound ns owner start length rs = some (rs.find? fun r =>
      r.namespace_ = ns && decide (r.owner ≠ owner) && recOverlaps r start length) := by
  induction rs with
  | nil => rfl
  | cons r rs ih =>
    obtain ⟨hr, hrs⟩ := List.forall_mem_cons.mp hrs
    rw [Checking.firstFound, checking_recOverlaps hr h, ih hrs, Option.bind_eq_bind,
      Option.bind_some, List.find?_cons]
    by_cases hns : r.namespace_ = ns <;> by_cases howner : r.owner = owner <;>
      cases recOverlaps r start length <;> simp [hns, howner]

lemma checking_namespaceLock (hrs : ∀ r ∈ m.records inode, r.InRange)
    (h : start + length < 2 ^ 64) (op : LockOp) :
    Checking.namespaceLock m ns inode owner op start length
      = some (m.namespaceLock ns inode owner op start length) := by
  unfold Checking.namespaceLock namespaceLock
  dsimp only
  rw [records_entry]
  cases op with
  | unlock =>
    rw [checking_unlockAll hrs h]
    rfl
  | shared =>
    dsimp only
    rw [checking_firstConflict hrs h, Option.bind_eq_bind, Option.bind_some]
    cases (m.records inode).find? (conflicts ns owner (lockTypeOf .shared) start length) <;> rfl
  | exclusive =>
    dsimp only
    rw [checking_firstConflict hrs h, Option.bind_eq_bind, Option.bind_some]
    cases (m.records inode).find? (conflicts ns owner (lockTypeOf .exclusive) start length) <;> rfl

lemma checking_getlk (hrs : ∀ r ∈ m.records inode, r.InRange) (h : start + length < 2 ^ 64) :
    Checking.getlk m ns inode owner start length
      = some (m.getlk ns inode start length fun r => r.owner ≠ owner) := by
  unfold Checking.getlk getlk
  rw [checking_firstFound hrs h]
  rfl

end Results

/-! ### What the arithmetic is good for -/

/-- The inode and the range that a request is about. -/
def Request.range : Request → Option (ℕ × ℕ × ℕ)
  | .call (.posixLock inode _ _ _ start length _) | .call (.ofdLock inode _ _ start length _)
  | .posixGetlk inode _ _ start length | .ofdGetlk inode _ start length =>
    some (inode, start, length)
  | .call (.flock inode _ _ _) => some (inode, 0, 0)
  | .call (.onFdClose ..) => none

/-- The numbers of the request are `u64`s. -/
def Request.IsU64 (request : Request) : Prop :=
  ∀ inode start length, request.range = some (inode, start, length) →
    start < 2 ^ 64 ∧ length < 2 ^ 64

/-- The request's range ends in range. -/
def Request.EndsInRange (request : Request) : Prop :=
  ∀ inode start length, request.range = some (inode, start, length) → start + length < 2 ^ 64

/-- The lock managers that requests lead to, all of which satisfy `Ok`. -/
def RequestRun (Ok : Request → Prop) : LockManager → Prop :=
  Run (· = new) (fun request m => (request.step m).2) fun _ request => Ok request

/-- No sum or difference that the request needs is out of range, the overlap test is exact for it,
and it does not let two owners have a byte to themselves. -/
structure RangesSafe (m : LockManager) (request : Request) : Prop where
  inRange : Checking.step m request = some (request.step m)
  exact : ∀ inode start length, request.range = some (inode, start, length) →
    ∀ r ∈ m.records inode,
      (recOverlaps r start length = true ↔ r.span.Meets (rangeSpan start length))
  apart : ∀ inode, ∀ a ∈ (request.step m).2.records inode,
    ∀ b ∈ (request.step m).2.records inode, a.namespace_ = b.namespace_ → a.owner ≠ b.owner →
      a.type = .exclusive → b.type = .exclusive → ¬ a.span.Meets b.span

section Safe
variable {m : LockManager} {request : Request}

lemma inRange_of_endsInRange {c : LockCall} (h : (Request.call c).EndsInRange) : c.InRange := by
  cases c with
  | posixLock => exact h _ _ _ rfl
  | ofdLock => exact h _ _ _ rfl
  | flock => trivial
  | onFdClose => trivial

lemma Excludes.step (hm : m.Excludes) (h : request.EndsInRange) : (request.step m).2.Excludes := by
  cases request with
  | call c => exact hm.exec (inRange_of_endsInRange h)
  | posixGetlk => exact hm
  | ofdGetlk => exact hm

lemma excludes_of_requestRun (h : RequestRun Request.EndsInRange m) : m.Excludes :=
  Run.invariant (P := Excludes) (by rintro _ rfl i; exact .nil)
    (fun _ _ _ hok hm => hm.step hok) h

lemma checking_step (hm : m.Excludes) (h : request.EndsInRange) :
    Checking.step m request = some (request.step m) := by
  have hrs : ∀ i, ∀ r ∈ m.records i, r.InRange := fun i => (hm i).inRange
  cases request with
  | posixGetlk inode fdId pid start length =>
    rw [Checking.step, checking_getlk (hrs inode) (h _ _ _ rfl)]
    rfl
  | ofdGetlk inode fdId start length =>
    rw [Checking.step, checking_getlk (hrs inode) (h _ _ _ rfl)]
    rfl
  | call c =>
    cases c with
    | posixLock inode fdId pid op start length wait =>
      rw [Checking.step, checking_namespaceLock (hrs inode) (h _ _ _ rfl)]
      rfl
    | ofdLock inode fdId op start length wait =>
      rw [Checking.step, checking_namespaceLock (hrs inode) (h _ _ _ rfl)]
      rfl
    | flock inode fdId op wait =>
      rw [Checking.step, checking_namespaceLock (hrs inode) (by decide)]
      cases op <;> rfl
    | onFdClose inode fdId pid => rfl

/-- Along every run of requests whose ranges end in range, the arithmetic of ranges is safe. -/
theorem ranges_safe (hm : RequestRun Request.EndsInRange m) (h : request.EndsInRange) :
    RangesSafe m request := by
  have hexcludes := excludes_of_requestRun hm
  refine ⟨checking_step hexcludes h, fun inode start length hrange r hr => ?_, ?_⟩
  · exact recOverlaps_iff ((hexcludes inode).inRange r hr) (h _ _ _ hrange)
  · intro inode a ha b hb hns howner htype _ hmeets
    have hshared := ((hexcludes.step h) inode).compatible a ha b hb hns howner hmeets
    cases htype.symm.trans hshared.1

end Safe

theorem ranges_safe_twoReaders : RangesSafe
    (Request.step new (.call (.posixLock 1 10 100 .shared 0 0 false))).2
    (.posixGetlk 1 11 200 5 10) := by
  refine ranges_safe (.next (.start rfl) ?_) ?_
  all_goals
    rintro inode start length h
    cases h
    decide

/-- A process has the last byte that a `u64` can name to itself. -/
def lastByte (pid : ℤ) : Request := .call (.posixLock 1 10 pid .exclusive (2 ^ 64 - 1) 1 false)

/-- Another one gets it too, since the end of the range wraps around to zero. -/
theorem not_ranges_safe : ¬ ∀ m request, RequestRun Request.IsU64 m → request.IsU64 →
    RangesSafe m request := by
  intro h
  have hu64 : ∀ pid, (lastByte pid).IsU64 := by
    rintro pid inode start length hrange
    cases hrange
    decide
  have hsafe := h ((lastByte 100).step new).2 (lastByte 200) (.next (.start rfl) (hu64 100)) (hu64 200)
  exact hsafe.apart 1 ⟨.posix, .exclusive, 100, 2 ^ 64 - 1, 1⟩ (by decide +kernel)
    ⟨.posix, .exclusive, 200, 2 ^ 64 - 1, 1⟩ (by decide +kernel) rfl (by decide) rfl rfl
    ⟨2 ^ 64 - 1, by decide +kernel, by decide +kernel⟩

end LockManager

end SqliteFs
