import SqliteFs.Types
import SqliteFs.Lib.KeyTable

/-!
# Advisory locks

The lock manager keeps, for each inode, a list of records in one of three namespaces. A record
covers the bytes from `start` on, `length` many or all of them if `length` is zero. Locks are
never waited for: a request that meets a conflict is refused.
-/

namespace SqliteFs

inductive Namespace
  | posix | ofd | flock
  deriving DecidableEq, Repr

structure Record where
  namespace_ : Namespace
  type : LockType
  owner : ℤ
  start : ℕ
  length : ℕ
  deriving DecidableEq

/-- `Some(start + length)`, or `None` for a range without end. -/
def rangeEnd (start length : ℕ) : Option ℕ :=
  if length = 0 then none else some (U64.add start length)

def Record.end_ (rec : Record) : Option ℕ := rangeEnd rec.start rec.length

def overlaps (aStart : ℕ) (aEnd : Option ℕ) (bStart : ℕ) (bEnd : Option ℕ) : Bool :=
  let endsBefore (e : Option ℕ) (s : ℕ) : Bool := e.any (· ≤ s)
  !(endsBefore aEnd bStart || endsBefore bEnd aStart)

def recOverlaps (rec : Record) (start length : ℕ) : Bool :=
  overlaps rec.start rec.end_ start (rangeEnd start length)

/-- An entry of `by_inode`. -/
structure Slot where
  inode : ℕ
  records : List Record
  deriving DecidableEq

instance : Keyed Slot ℕ := ⟨Slot.inode⟩

@[simp] lemma key_slot (s : Slot) : Keyed.key s = s.inode := rfl

structure LockManager where
  byInode : KeyTable Slot
  deriving DecidableEq

namespace LockManager

def new : LockManager := ⟨.empty⟩

/-- The records of `inode`, none where it has no entry. -/
def records (m : LockManager) (inode : ℕ) : List Record :=
  ((m.byInode.find? inode).map Slot.records).getD []

/-- `by_inode.entry(inode).or_default()`. -/
def entry (m : LockManager) (inode : ℕ) : LockManager :=
  match m.byInode.find? inode with
  | some _ => m
  | none => ⟨m.byInode.put ⟨inode, []⟩⟩

def setRecords (m : LockManager) (inode : ℕ) (records : List Record) : LockManager :=
  ⟨m.byInode.put ⟨inode, records⟩⟩

/-- `by_inode.remove(&inode)`. -/
def remove (m : LockManager) (inode : ℕ) : LockManager :=
  ⟨m.byInode.deleteWhere fun s => s.inode = inode⟩

/-- Store the records of `inode`; an inode without records has no entry. -/
def storeRecords (m : LockManager) (inode : ℕ) (records : List Record) : LockManager :=
  if records = [] then m.remove inode else m.setRecords inode records

/-- The fragment of `r` that ends where the unlocked range starts. -/
def leftFrag (r : Record) (start : ℕ) : Record :=
  { r with length := U64.sub (r.end_.elim start fun e => min e start) r.start }

/-- The fragment of `r` that starts where the unlocked range ends. -/
def rightFrag (r : Record) (ue : ℕ) : Record :=
  { r with start := ue, length := r.end_.elim 0 fun e => U64.sub e ue }

section Frags
variable (r : Record) (start ue : ℕ)

@[simp] lemma leftFrag_namespace : (leftFrag r start).namespace_ = r.namespace_ := by rw [leftFrag]
@[simp] lemma leftFrag_owner : (leftFrag r start).owner = r.owner := by rw [leftFrag]
@[simp] lemma leftFrag_type : (leftFrag r start).type = r.type := by rw [leftFrag]
@[simp] lemma leftFrag_start : (leftFrag r start).start = r.start := by rw [leftFrag]
@[simp] lemma rightFrag_namespace : (rightFrag r ue).namespace_ = r.namespace_ := by rw [rightFrag]
@[simp] lemma rightFrag_owner : (rightFrag r ue).owner = r.owner := by rw [rightFrag]
@[simp] lemma rightFrag_type : (rightFrag r ue).type = r.type := by rw [rightFrag]
@[simp] lemma rightFrag_start : (rightFrag r ue).start = ue := by rw [rightFrag]

end Frags

/-- What is left of `r` when a range that it overlaps is unlocked. -/
def splitRecord (r : Record) (start length : ℕ) : List Record :=
  (if r.start < start then [leftFrag r start] else []) ++
  match rangeEnd start length with
  | some ue => if r.end_.all (ue < ·) then [rightFrag r ue] else []
  | none => []

/-- What the unlocking loop keeps of the record `r`. -/
def unlockRecord (namespace_ : Namespace) (owner : ℤ) (start length : ℕ) (r : Record) :
    List Record :=
  if r.namespace_ ≠ namespace_ ∨ r.owner ≠ owner then [r]
  else if ¬ recOverlaps r start length then [r]
  else splitRecord r start length

/-- Does `r`, held by another owner, stand against a lock of type `newType` on the range? -/
def conflicts (namespace_ : Namespace) (owner : ℤ) (newType : LockType) (start length : ℕ)
    (r : Record) : Bool :=
  r.namespace_ = namespace_ && r.owner ≠ owner && recOverlaps r start length
    && (r.type = .exclusive || newType = .exclusive)

/-- Is `r` a record of `owner` on just this range? -/
def sameRange (namespace_ : Namespace) (owner : ℤ) (start length : ℕ) (r : Record) : Bool :=
  r.namespace_ = namespace_ && r.owner = owner && r.start = start && r.length = length

/-- Give the first record that satisfies `p` the type `newType`, or push `r` if there is none. -/
def retypeOrPush (p : Record → Bool) (r : Record) : List Record → List Record
  | [] => [r]
  | x :: xs => if p x then { x with type := r.type } :: xs else x :: retypeOrPush p r xs

def lockTypeOf (op : LockOp) : LockType := if op = .exclusive then .exclusive else .shared

def conflictError (r : Record) (inode start length : ℕ) : Error :=
  .lockConflict [.lit "conflicting ", .lockType r.type, .lit " lock on inode ", .num inode,
    .lit " [", .num start, .lit ", +", .num length, .lit ")"]

def namespaceLock (m : LockManager) (namespace_ : Namespace) (inode : ℕ) (owner : ℤ) (op : LockOp)
    (start length : ℕ) : Res Unit × LockManager :=
  let m := m.entry inode
  let records := m.records inode
  match op with
  | .unlock =>
    (.ok (), m.storeRecords inode (records.flatMap (unlockRecord namespace_ owner start length)))
  | op =>
    let newType := lockTypeOf op
    match records.find? (conflicts namespace_ owner newType start length) with
    | some r =>
      (err (conflictError r inode start length), m)
    | none =>
      (.ok (), m.setRecords inode (retypeOrPush (sameRange namespace_ owner start length)
        ⟨namespace_, newType, owner, start, length⟩ records))

def posixLock (m : LockManager) (inode : ℕ) (_fdId pid : ℤ) (op : LockOp) (start length : ℕ)
    (_wait : Bool) : Res Unit × LockManager :=
  m.namespaceLock .posix inode pid op start length

def ofdLock (m : LockManager) (inode : ℕ) (fdId : ℤ) (op : LockOp) (start length : ℕ)
    (_wait : Bool) : Res Unit × LockManager :=
  m.namespaceLock .ofd inode fdId op start length

def flock (m : LockManager) (inode : ℕ) (fdId : ℤ) (op : FlockOp) (_wait : Bool) :
    Res Unit × LockManager :=
  let lockOp : LockOp := match op with
    | .shared => .shared
    | .exclusive => .exclusive
    | .unlock => .unlock
  m.namespaceLock .flock inode fdId lockOp 0 0

def getlk (m : LockManager) (namespace_ : Namespace) (inode : ℕ) (start length : ℕ)
    (ownerFilter : Record → Bool) : Option LockQuery :=
  ((m.records inode).find? fun r =>
      r.namespace_ = namespace_ && ownerFilter r && recOverlaps r start length).map
    fun r => ⟨r.type, r.owner, U64.toI64 r.start, U64.toI64 r.length⟩

def posixGetlk (m : LockManager) (inode : ℕ) (_fdId pid : ℤ) (start length : ℕ) :
    Option LockQuery :=
  m.getlk .posix inode start length fun r => r.owner ≠ pid

def ofdGetlk (m : LockManager) (inode : ℕ) (fdId : ℤ) (start length : ℕ) : Option LockQuery :=
  m.getlk .ofd inode start length fun r => r.owner ≠ fdId

/-- Does the close of `fdId` by `pid` release `r`? -/
def releasedBy (fdId pid : ℤ) (r : Record) : Bool :=
  match r.namespace_ with
  | .posix => r.owner = pid
  | .ofd => r.owner = fdId
  | .flock => r.owner = fdId

def onFdClose (m : LockManager) (inode : ℕ) (fdId pid : ℤ) : LockManager :=
  match m.byInode.find? inode with
  | none => m
  | some slot => m.storeRecords inode (slot.records.filter fun r => !releasedBy fdId pid r)

/-! ### Records after each step -/

variable (m : LockManager) (inode : ℕ)

@[simp] lemma records_new : new.records inode = [] := rfl

@[simp] lemma records_entry (i : ℕ) : (m.entry inode).records i = m.records i := by
  unfold entry records
  cases h : m.byInode.find? inode with
  | some s => rfl
  | none =>
    rw [KeyTable.find?_put]
    split_ifs with hi
    · obtain rfl : inode = i := hi
      rw [h]; rfl
    · rfl

@[simp] lemma records_setRecords (rs : List Record) (i : ℕ) :
    (m.setRecords inode rs).records i = if i = inode then rs else m.records i := by
  unfold setRecords records
  rw [KeyTable.find?_put, key_slot]
  by_cases hi : inode = i
  · rw [if_pos hi, if_pos hi.symm]; rfl
  · rw [if_neg hi, if_neg (Ne.symm hi)]

@[simp] lemma records_storeRecords (rs : List Record) (i : ℕ) :
    (m.storeRecords inode rs).records i = if i = inode then rs else m.records i := by
  unfold storeRecords
  split_ifs with hrs hi hi
  · subst hrs hi
    unfold remove records
    rw [KeyTable.find?_deleteWhere]
    cases h : m.byInode.find? i with
    | none => rfl
    | some s =>
      obtain rfl : s.inode = i := (KeyTable.find?_eq_some.mp h).2
      simp [Option.filter]
  · unfold remove records
    rw [KeyTable.find?_deleteWhere]
    cases h : m.byInode.find? i with
    | none => rfl
    | some s =>
      obtain rfl : s.inode = i := (KeyTable.find?_eq_some.mp h).2
      simp [Option.filter, hi]
  · rw [records_setRecords, if_pos hi]
  · rw [records_setRecords, if_neg hi]

@[simp] lemma records_onFdClose (fdId pid : ℤ) (i : ℕ) : (m.onFdClose inode fdId pid).records i
    = if i = inode then (m.records i).filter fun r => !releasedBy fdId pid r else m.records i := by
  unfold onFdClose
  cases h : m.byInode.find? inode with
  | none =>
    split_ifs with hi
    · subst hi
      simp [records, h]
    · rfl
  | some s =>
    rw [records_storeRecords]
    split_ifs with hi
    · subst hi
      simp [records, h]
    · rfl

/-- Where an inode has records, it has an entry. -/
lemma entry_eq_self (h : m.records inode ≠ []) : m.entry inode = m := by
  unfold entry
  unfold records at h
  cases hf : m.byInode.find? inode with
  | some s => rfl
  | none => simp [hf] at h

end LockManager

end SqliteFs
